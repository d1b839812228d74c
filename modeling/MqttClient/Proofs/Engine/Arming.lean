import MqttClient.Proofs.Engine.Reactions

/-! How the timers of acknowledgements are armed. Whenever a command writes a packet of a
transaction, it arms the timer of its identifier for the acknowledgement timeout from now, and it
arms such a timer at no other time. The one exception is the release that answers the acknowledged
receipt of an exactly-once message: it leaves the timer as it is. -/

namespace MqttClient

/-- The identifier of the transaction that a packet is part of. A release that only says that there
is no transaction is part of none. -/
def Packet.transaction? : Packet → Option UInt16
  | .publish p => if p.qos = .atMostOnce then none else some p.packetId
  | .subscribe p => some p.packetId
  | .unsubscribe p => some p.packetId
  | .pubRel a => if a.reason = .success then some a.packetId else none
  | _ => none

def Effect.isOf (k : UInt16) (x : Effect) : Bool := x.packet?.bind Packet.transaction? == some k

theorem Effect.isOf_iff {k : UInt16} {call : Option CallId} {p : Packet} {bytes : Bytes} :
    Effect.isOf k (.write call p bytes) = true ↔ p.transaction? = some k := by
  simp [isOf, packet?]

theorem Effect.not_isOf_of_silent {out : List Effect} (silent : out.any Effect.isWrite = false)
    (k : UInt16) : out.any (Effect.isOf k) = false := by
  refine List.any_eq_false.2 fun x hx => ?_
  have quiet := List.any_eq_false.1 silent x hx
  cases x with
  | write => exact absurd rfl quiet
  | _ => simp [isOf, packet?]

theorem Transaction.Fits.transaction?_resend {t : Transaction} {k : UInt16} (fits : t.Fits k) :
    t.resend.transaction? = some k := by
  obtain ⟨p, -, -, hid, hq, he⟩ | ⟨p, -, -, -, he⟩ | ⟨p, -, -, hid, he⟩ | ⟨p, -, -, hid, he⟩ :=
    fits.resend_cases
  all_goals rw [he]
  · simp only [Packet.transaction?, hq, if_false, hid]
  · rfl
  · exact congrArg some hid
  · exact congrArg some hid

/-- The packet acknowledges the receipt of an exactly-once message under that identifier, and is
answered with the release of the message. -/
def Session.Releases (s : Session) (k : UInt16) (packet : Packet) : Prop :=
  ∃ (a : Ack PublishReason) (t : Transaction), packet = .pubRec a ∧ a.packetId = k ∧
    a.reason.isSuccess = true ∧ s.outgoing[k]? = some t ∧ t.isPublish .exactlyOnce = true

theorem Session.releases_of_receive {s s' : Session} {now : Time} {packet reply : Packet}
    {k : UInt16} (h : s.receive now packet = (s', .ok (some reply)))
    (part : reply.transaction? = some k) : s.Releases k packet := by
  obtain ⟨p, -, rfl | rfl⟩ | ⟨a, reason, rfl, rfl⟩ | ⟨a, reason, -, rfl⟩ := reply_cases h
  · cases part
  · cases part
  · obtain ⟨-, he⟩ | ⟨t, ht, hq, ⟨success, -⟩ | ⟨-, he⟩⟩ :=
      receivePubRec_cases { s with lastIncoming := now } now a
    · simp only [receive, he, Prod.mk.injEq, Except.ok.injEq, Option.some.injEq,
        Packet.pubRel.injEq, Ack.mk.injEq] at h
      obtain ⟨-, -, rfl, -⟩ := h
      cases part
    · have same : a.packetId = k := by
        simp only [Packet.transaction?] at part
        split at part
        · exact Option.some.inj part
        · cases part
      exact ⟨a, t, rfl, same, success, same ▸ ht, hq⟩
    · simp only [receive, he] at h
      cases h
  · cases part

/-- What of an engine its timers go by, and what it did. -/
structure Agenda where
  now : Time
  ackTimeout : Duration
  timers : Timers
  effects : List Effect

def Engine.agenda (e : Engine) : Agenda where
  now := e.now
  ackTimeout := e.ackTimeout
  timers := e.timers
  effects := e.effects

/-- Either nothing of the transaction was written and its timer was not armed, or both were done. -/
structure Arms (k : UInt16) (f g : Agenda) : Prop where
  now_eq : g.now = f.now
  ackTimeout_eq : g.ackTimeout = f.ackTimeout
  timer : ∃ out, g.effects = f.effects ++ out ∧ ∀ a, g.timers.get? (.ack k) = some a →
    (f.timers.get? (.ack k) = some a ∧ out.any (Effect.isOf k) = false) ∨
    (a.deadline = f.now + f.ackTimeout.nanos ∧ out.any (Effect.isOf k) = true)

namespace Arms

variable {k : UInt16} {f g h : Agenda}

theorem of_calm (out : List Effect) (now : g.now = f.now)
    (ackTimeout : g.ackTimeout = f.ackTimeout)
    (effects : g.effects = f.effects ++ out) (none : out.any (Effect.isOf k) = false)
    (kept : ∀ a, g.timers.get? (.ack k) = some a → f.timers.get? (.ack k) = some a) : Arms k f g :=
  ⟨now, ackTimeout, out, effects, fun a ha => .inl ⟨kept a ha, none⟩⟩

theorem of_unarmed (out : List Effect) (now : g.now = f.now)
    (ackTimeout : g.ackTimeout = f.ackTimeout)
    (effects : g.effects = f.effects ++ out) (unarmed : g.timers.get? (.ack k) = none) :
    Arms k f g :=
  ⟨now, ackTimeout, out, effects, fun a ha => by cases unarmed.symm.trans ha⟩

theorem refl (f : Agenda) : Arms k f f :=
  .of_calm [] rfl rfl (List.append_nil _).symm rfl fun _ => id

theorem trans (first : Arms k f g) (second : Arms k g h) : Arms k f h := by
  obtain ⟨out, effects, timer⟩ := first.timer
  obtain ⟨more, effects', timer'⟩ := second.timer
  refine ⟨second.now_eq.trans first.now_eq, second.ackTimeout_eq.trans first.ackTimeout_eq,
    out ++ more, by rw [effects', effects, List.append_assoc], fun a ha => ?_⟩
  simp only [List.any_append, Bool.or_eq_true, Bool.or_eq_false_iff]
  -- A timer that was armed in the first part counts, unless the second armed it anew.
  obtain ⟨ha', none⟩ | ⟨deadline, some⟩ := timer' a ha
  · obtain ⟨ha'', none'⟩ | ⟨deadline, some⟩ := timer a ha'
    · exact .inl ⟨ha'', none', none⟩
    · exact .inr ⟨deadline, .inl some⟩
  · exact .inr ⟨by rw [deadline, first.now_eq, first.ackTimeout_eq], .inr some⟩

end Arms

namespace Engine

section

variable {k : UInt16} {e : Engine}

theorem arms_silent {d : Engine} (out : List Effect) (silent : out.any Effect.isWrite = false)
    (told : d.agenda = { e.agenda with effects := e.effects ++ out }) :
    Arms k e.agenda d.agenda := by
  rw [told]
  exact .of_calm out rfl rfl rfl (Effect.not_isOf_of_silent silent k) fun _ => id

theorem arms_succeed (e : Engine) (call : CallId) (r : Reply) :
    Arms k e.agenda (e.succeed call r).agenda :=
  arms_silent [.answer call (.ok r)] rfl rfl

theorem arms_fail (e : Engine) (call : CallId) (err : ClientError) :
    Arms k e.agenda (e.fail call err).agenda :=
  arms_silent [.answer call (.error err)] rfl rfl

theorem arms_failPending (e : Engine) (p : Pending) (err : ClientError) :
    Arms k e.agenda (e.failPending p err).agenda := by
  unfold failPending
  split
  · exact e.arms_fail _ err
  · exact .refl _

theorem arms_cancelTimer (e : Engine) (timer : Timer) :
    Arms k e.agenda (e.cancelTimer timer).agenda :=
  .of_calm [] rfl rfl (List.append_nil _).symm rfl fun _ => Timers.get?_of_erase

theorem arms_schedule (e : Engine) (timer : Timer) (ne : .ack k ≠ timer) (delay : Duration) :
    Arms k e.agenda (e.schedule timer delay).agenda :=
  .of_calm [] rfl rfl (List.append_nil _).symm rfl fun _ ha =>
    (Timers.get?_set_of_ne e.timers _ ne).symm.trans ha

theorem arms_failAll (e : Engine) (err : ClientError) :
    Arms k e.agenda (e.failAll err).agenda := by
  obtain ⟨calls, effects⟩ := e.effects_failAll err
  refine arms_silent (calls.map fun call => .answer call (.error err)) (by simp [Effect.isWrite]) ?_
  rw [← effects, failAll_eq]
  rfl

theorem arms_teardown (e : Engine) : Arms k e.agenda e.teardown.agenda := by
  obtain ⟨effects, rfl | rfl, he⟩ := e.teardown_eq
  all_goals rw [he]
  · exact .of_unarmed [] rfl rfl (List.append_nil _).symm (get?_empty _)
  · exact .of_unarmed [.close] rfl rfl rfl (get?_empty _)

theorem arms_connectionLost (e : Engine) (cause : ConnectionError) :
    Arms k e.agenda (e.connectionLost cause).agenda := by
  unfold connectionLost
  split
  · exact .refl _
  · refine e.arms_teardown.trans ?_
    dsimp only
    split
    · next call _ =>
      let told := { e.teardown with connectCall := none }.fail call (.ofConnection cause)
      exact (arms_fail { e.teardown with connectCall := none } call _).trans
        (told.arms_failAll .notConnected)
    · exact arms_schedule _ _ (by simp) _
    · exact e.teardown.arms_failAll (.connectionLost cause)

theorem arms_write (e : Engine) {p : Packet} (other : p.transaction? ≠ some k) :
    (∃ d, e.write p = (d, .ok ()) ∧ Arms k e.agenda d.agenda) ∨
    ∃ err, e.write p = (e, .error err) := by
  obtain ⟨link, bytes, -, -, -, he⟩ | ⟨link, err, -, -, he⟩ | ⟨-, err, -, he⟩ := e.write_cases p
  · have none : [Effect.write (e.requester p) p bytes].any (Effect.isOf k) = false := by
      simpa [Effect.isOf, Effect.packet?] using other
    exact .inl ⟨_, he, .of_calm _ rfl rfl rfl none fun _ => id⟩
  · exact .inr ⟨.encoding err, he⟩
  · exact .inr ⟨err, he⟩

theorem arms_send (e : Engine) {p : Packet} {j : UInt16} (part : p.transaction? = some j) :
    (∃ d, e.write p = (d, .ok ()) ∧ Arms k e.agenda (d.schedule (.ack j) e.ackTimeout).agenda) ∨
    ∃ err, e.write p = (e, .error err) := by
  obtain ⟨link, bytes, -, -, -, he⟩ | ⟨link, err, -, -, he⟩ | ⟨-, err, -, he⟩ := e.write_cases p
  · refine .inl ⟨_, he, rfl, rfl, [.write (e.requester p) p bytes], rfl, fun a ha => ?_⟩
    -- Another timer than its own is left alone, and so is the other transaction.
    by_cases same : j = k
    · subst same
      cases (Timers.get?_set_self e.timers (.ack j) _).symm.trans ha
      exact .inr ⟨rfl, by simp [Effect.isOf_iff, part]⟩
    · have ne : Timer.ack k ≠ .ack j := by simpa using Ne.symm same
      refine .inl ⟨(Timers.get?_set_of_ne e.timers _ ne).symm.trans ha, ?_⟩
      simpa [Effect.isOf, Effect.packet?, part] using same
  · exact .inr ⟨.encoding err, he⟩
  · exact .inr ⟨err, he⟩

theorem arms_writeOrLose (e : Engine) {p : Packet} (other : p.transaction? ≠ some k) :
    Arms k e.agenda (e.writeOrLose p).agenda := by
  unfold writeOrLose
  obtain ⟨d, he, arms⟩ | ⟨err, he⟩ := e.arms_write other
  all_goals rw [he]
  · exact arms
  · exact e.arms_connectionLost _

theorem arms_sendDisconnect (e : Engine) (reason : DisconnectReason) :
    Arms k e.agenda (e.sendDisconnect reason).agenda := by
  obtain he | ⟨link, room, bytes, -, he⟩ := e.sendDisconnect_cases reason
  all_goals rw [he]
  · exact .refl _
  · exact .of_calm [.write none (.disconnect { reason }) bytes] rfl rfl rfl rfl fun _ => id

theorem arms_dropPending (e : Engine) (j : UInt16) (p : Pending) (err : ClientError) :
    Arms k e.agenda (e.dropPending j p err).agenda := by
  rw [dropPending_eq]
  refine arms_silent (p.call?.toList.map fun id => .answer id (.error err)) ?_ rfl
  simp [Effect.isWrite]

theorem arms_transmit (e : Engine) {j : UInt16} {packet : Packet}
    (part : packet.transaction? = some j) (p : Pending) :
    Arms k e.agenda (e.transmit j packet p).agenda := by
  let waiting : Engine := { e with pending := e.pending.insert j p }
  change Arms k waiting.agenda _
  unfold transmit
  obtain ⟨d, he, arms⟩ | ⟨err, he⟩ := waiting.arms_send (k := k) part
  all_goals rw [he]
  · have same : d.ackTimeout = waiting.ackTimeout := arms.ackTimeout_eq
    rw [← same] at arms
    exact arms
  · cases err with
    | encoding err => exact waiting.arms_dropPending j p _
    | _ => exact waiting.arms_connectionLost _

theorem arms_start {phase : Phase} {mk : UInt16 → Packet} {s : Session} {packet : Packet}
    (hs : e.session.start e.now phase mk = (s, .ok packet))
    (part : ∀ j, (mk j).transaction? = some (packetIdOf (mk j)))
    (t : SubscriptionTable HandlerId) (p : Pending) :
    Arms k e.agenda
      (({ e.withSession s with subscriptions := t } : Engine).transmit (packetIdOf packet) packet
        p).agenda := by
  obtain ⟨j, -, -, -, rfl, rfl⟩ := Session.start_eq_ok hs
  exact arms_transmit { e.withSession (e.session.track e.now j (mk j) phase) with
    subscriptions := t } (part j) p

theorem arms_sendUnacknowledged (e : Engine) (call : CallId) {packet : Packet}
    (other : packet.transaction? ≠ some k) :
    Arms k e.agenda (e.sendUnacknowledged call packet).agenda := by
  unfold sendUnacknowledged
  obtain ⟨d, he, arms⟩ | ⟨err, he⟩ := e.arms_write other
  all_goals rw [he]
  · exact arms.trans (d.arms_succeed call .sent)
  · cases err with
    | encoding err => exact e.arms_fail call _
    | _ => exact (e.arms_fail call .notConnected).trans (arms_connectionLost _ _)

theorem arms_sendCall (e : Engine) (call : Call) : Arms k e.agenda (e.sendCall call).agenda := by
  cases call with
  | publish id p =>
    simp only [sendCall, Session.send, Session.sendPublish]
    by_cases hq : p.qos = .atMostOnce
    · simp only [hq, if_true]
      by_cases connected : e.session.connection = .connected
      · simp only [connected, if_true]
        exact e.arms_sendUnacknowledged id (by simp [Packet.transaction?])
      · simp only [connected, if_false]
        exact e.arms_fail id _
    · simp only [hq, if_false]
      rcases hs : e.session.start e.now .sent
        fun j => .publish { p with packetId := j, dup := false } with ⟨s, err | packet⟩
      · exact (e.withSession s).arms_fail id _
      · exact arms_start hs (fun j => by simp [Packet.transaction?, packetIdOf, hq])
          e.subscriptions _
  | subscribe id p handler =>
    simp only [sendCall, Session.send]
    rcases hs : e.session.start e.now .subscribing fun j => .subscribe { p with packetId := j }
      with ⟨s, err | packet⟩
    · exact (e.withSession s).arms_fail id _
    · exact arms_start hs (fun _ => rfl) _ _
  | unsubscribe id p =>
    simp only [sendCall, Session.send]
    rcases hs : (e.unsubscribeAll p.filters).session.start (e.unsubscribeAll p.filters).now
      .unsubscribing fun j => .unsubscribe { p with packetId := j } with ⟨s, err | packet⟩
    · exact ((e.unsubscribeAll p.filters).withSession s).arms_fail id _
    · exact arms_start hs (fun _ => rfl) (e.subscriptions.eraseAll p.filters) _

theorem arms_drainBacklog (e : Engine) : Arms k e.agenda e.drainBacklog.agenda :=
  drainLoop_induction (motive := fun d => Arms k e.agenda d.agenda) e.backlog.length (.refl _)
    fun d call rest arms _ _ _ => arms.trans (arms_sendCall { d with backlog := rest } call)

theorem arms_request (e : Engine) (call : Call) :
    Arms k e.agenda (e.request call false).agenda := by
  unfold request
  split
  · split
    · exact .refl _
    · exact e.arms_sendCall call
  · split
    · exact .refl _
    · exact e.arms_fail call.id .notConnected

theorem arms_cancelCall (e : Engine) (call : CallId) :
    Arms k e.agenda (e.cancelCall call).agenda := by
  unfold cancelCall
  split
  · next j p _ =>
    exact (((e.erasePending j).forget j).arms_cancelTimer (.ack j)).trans (arms_drainBacklog _)
  · exact .refl _

theorem arms_published (e : Engine) (j : UInt16) (ack : PublishAck) :
    Arms k e.agenda (e.published j ack).agenda := by
  let acked := (e.cancelTimer (.ack j)).erasePending j
  unfold published
  refine (e.arms_cancelTimer (.ack j)).trans (.trans ?_ (arms_drainBacklog _))
  split
  · exact acked.arms_succeed _ _
  · exact acked.arms_failPending _ _
  · exact .refl _

theorem arms_subscribed (e : Engine) (p : SubAck) : Arms k e.agenda (e.subscribed p).agenda := by
  let acked := (e.cancelTimer (.ack p.packetId)).erasePending p.packetId
  unfold subscribed
  refine (e.arms_cancelTimer (.ack p.packetId)).trans (.trans ?_ (arms_drainBacklog _))
  split
  · exact (acked.unsubscribeAll _).arms_succeed _ _
  · exact .refl _
  · exact acked.arms_failPending _ _
  · exact .refl _

theorem arms_unsubscribed (e : Engine) (p : UnsubAck) :
    Arms k e.agenda (e.unsubscribed p).agenda := by
  let acked := (e.cancelTimer (.ack p.packetId)).erasePending p.packetId
  unfold unsubscribed
  refine (e.arms_cancelTimer (.ack p.packetId)).trans (.trans ?_ (arms_drainBacklog _))
  split
  · exact acked.arms_succeed _ _
  · exact acked.arms_failPending _ _
  · exact .refl _

theorem arms_dispatch (e : Engine) (p : Publish) : Arms k e.agenda (e.dispatch p).agenda := by
  rw [dispatch_eq]
  refine arms_silent ((e.subscriptions.handlersOf p.topic).map fun h =>
    .deliver h (.ofPublish p)) ?_ rfl
  simp [Effect.isWrite]

theorem arms_replied (e : Engine) {reply : Option Packet}
    (other : ∀ packet, reply = some packet → packet.transaction? ≠ some k) :
    Arms k e.agenda (e.replied reply).agenda := by
  cases reply with
  | none => exact .refl _
  | some packet =>
    rw [replied]
    split
    · exact .refl _
    · exact e.arms_writeOrLose (other packet rfl)

theorem arms_expire (e : Engine) (j : UInt16) (policy : TimeoutPolicy) :
    Arms k e.agenda (e.expire j policy).agenda := by
  let gone := e.erasePending j
  have told : ∃ d : Engine, Arms k e.agenda d.agenda ∧ e.expire j .drop = d.drainBacklog ∧
      e.expire j .reset = d.connectionLost (.transactionTimeout j) := by
    unfold expire
    dsimp only
    split
    · exact ⟨_, gone.arms_fail _ _, rfl, rfl⟩
    · exact ⟨_, (gone.unsubscribeAll _).arms_fail _ _, rfl, rfl⟩
    · exact ⟨_, gone.arms_failPending _ _, rfl, rfl⟩
    · exact ⟨gone, .refl _, rfl, rfl⟩
  obtain ⟨d, arms, dropped, reset⟩ := told
  cases policy with
  | drop => exact dropped ▸ arms.trans (arms_drainBacklog _)
  | reset => exact reset ▸ arms.trans (arms_connectionLost _ _)

theorem arms_ackTimedOut (sound : e.session.IsSound) (j : UInt16) :
    Arms k e.agenda (e.ackTimedOut j).agenda := by
  unfold ackTimedOut
  split
  · exact arms_drainBacklog ((e.erasePending j).forget j)
  · split
    · exact .refl _
    · next config _ =>
      obtain ⟨-, he⟩ | ⟨t, ht, he | ⟨-, he⟩⟩ :=
        Session.retransmit_cases e.session e.now j config.maxRetries
      all_goals rw [he]
      · exact .refl _
      · exact arms_expire (e.forget j) j _
      · let again : Engine := e.withSession { e.session with
          outgoing := e.session.outgoing.insert j
            { t with retries := t.retries + 1, lastSent := e.now } }
        obtain ⟨d, he', arms⟩ | ⟨err, he'⟩ :=
          again.arms_send (k := k) (sound.fits ht).transaction?_resend
        all_goals simp only [again] at he'
        all_goals simp only [he']
        · have same : d.ackTimeout = again.ackTimeout := arms.ackTimeout_eq
          rw [← same] at arms
          exact arms
        · exact again.arms_connectionLost _

theorem arms_keepAliveDue (e : Engine) : Arms k e.agenda e.keepAliveDue.agenda := by
  unfold keepAliveDue
  dsimp only
  split
  · exact e.arms_schedule .keepAlive (by simp) _
  · split
    · next s _ => exact (e.withSession s).arms_connectionLost _
    · next s _ _ _ => exact (e.withSession s).arms_connectionLost _
    · next s packet hs =>
      have ping : packet = .pingReq := by
        simp only [Session.send, Session.sendPing] at hs
        split at hs
        · split at hs <;> cases hs
          rfl
        · cases hs
      subst ping
      obtain ⟨d, he, arms⟩ | ⟨err, he⟩ := (e.withSession s).arms_write (p := .pingReq) (k := k)
        (by simp [Packet.transaction?])
      all_goals rw [he]
      · exact (arms.trans (d.arms_schedule .pingResp (by simp) _)).trans
          (arms_schedule _ _ (by simp) _)
      · exact (e.withSession s).arms_connectionLost _

theorem arms_startAttempt (e : Engine) : Arms k e.agenda e.startAttempt.agenda := by
  unfold startAttempt
  split
  · exact .refl _
  · next config _ =>
    split
    · exact .refl _
    · next s _ =>
      let attempting : Engine := { e.withSession s with epoch := e.epoch + 1, opening := true }
      exact (attempting.arms_schedule .connect (by simp) config.connectTimeout).trans
        (arms_silent [.attempt (e.epoch + 1) config.host config.port] rfl rfl)

theorem unarmed_startAttempt (unarmed : e.timers.get? (.ack k) = none) :
    e.startAttempt.timers.get? (.ack k) = none := by
  unfold startAttempt
  split
  · exact unarmed
  · split
    · exact unarmed
    · exact (Timers.get?_set_of_ne e.timers _ (by simp)).trans unarmed

theorem arms_opened (e : Engine) (result : Except TransportError (Option Nat)) :
    Arms k e.agenda (e.opened result).agenda := by
  unfold opened
  dsimp only
  split
  · exact arms_connectionLost { e with opening := false } _
  · exact .refl _
  · next room config _ =>
    let linked : Engine := { e with
      opening := false
      link := some { maxOutgoing := config.maxOutgoing, room } }
    split
    · next s packet hs =>
      have greeting : packet = .connect config.connectPacket := by
        simp only [Session.send] at hs
        split at hs <;> cases hs
        rfl
      subst greeting
      exact (linked.withSession s).arms_writeOrLose (by simp [Packet.transaction?])
    · next s err _ => exact (linked.withSession s).arms_connectionLost _

theorem arms_replayAll (e : Engine) {ackTimeout : Duration} (same : ackTimeout = e.ackTimeout)
    (packets : List Packet) (part : ∀ p ∈ packets, p.transaction? = some (packetIdOf p)) :
    Arms k e.agenda (e.replayAll ackTimeout packets).1.agenda := by
  induction packets generalizing e with
  | nil => exact .refl _
  | cons packet rest ih =>
    rw [replayAll]
    obtain ⟨d, he, arms⟩ | ⟨err, he⟩ := e.arms_send (k := k) (part packet List.mem_cons_self)
    all_goals rw [he]
    · have same' : ackTimeout = d.ackTimeout := same.trans arms.ackTimeout_eq.symm
      rw [← same] at arms
      exact arms.trans (ih (d.schedule (.ack (packetIdOf packet)) ackTimeout) same'
        fun p hp => part p (List.mem_cons_of_mem _ hp))
    · exact e.arms_connectionLost _

theorem arms_resubscribe (e : Engine) : Arms k e.agenda e.resubscribe.agenda := by
  unfold resubscribe
  split
  · exact .refl _
  · simp only [Session.send]
    rcases hs : e.session.start e.now .subscribing
      fun j => .subscribe { filters := e.subscriptions.filters, packetId := j }
      with ⟨s, err | packet⟩
    · exact .refl _
    · exact arms_start hs (fun _ => rfl) e.subscriptions _

theorem arms_resume (sound : e.session.IsSound) {ackTimeout : Duration}
    (same : ackTimeout = e.ackTimeout) : Arms k e.agenda (e.resume ackTimeout).agenda := by
  let taken := e.withSession (e.session.replay e.now).1
  have part : ∀ p ∈ (e.session.replay e.now).2, p.transaction? = some (packetIdOf p) := by
    intro p hp
    obtain ⟨j, t, ht, rfl⟩ := Session.mem_replay.1 hp
    rw [(sound.fits ht).packetIdOf_resend]
    exact (sound.fits ht).transaction?_resend
  have replayed := arms_replayAll (k := k) taken same _ part
  rcases he : taken.replayAll ackTimeout (e.session.replay e.now).2 with ⟨d, done⟩
  rw [he] at replayed
  cases done with
  | true =>
    rw [resume_of_replayed he]
    exact (replayed.trans d.arms_resubscribe).trans (arms_drainBacklog _)
  | false =>
    rw [resume_of_lost he]
    exact replayed

theorem arms_accepted (e : Engine) (config : Config) (p : ConnAck) :
    Arms k e.agenda (e.accepted config p).agenda := by
  refine (e.arms_cancelTimer .connect).trans ?_
  unfold accepted
  dsimp only
  split
  · exact .refl _
  · exact arms_schedule _ _ (by simp) _

theorem arms_connected (sound : e.session.IsSound) (p : ConnAck) :
    Arms k e.agenda (e.connected p).agenda := by
  cases configured : e.config with
  | none =>
    have configured' : (e.cancelTimer .connect).config = none := configured
    simp only [Engine.connected, configured']
    exact e.arms_cancelTimer .connect
  | some config =>
    have configured' : (e.cancelTimer .connect).config = some config := configured
    let d := e.accepted config p
    have kept : d.session.IsSound ∧ config.ackTimeout = d.ackTimeout := by
      have same : d.config = some config := by
        simp only [d, accepted]
        split <;> exact configured
      refine ⟨?_, by rw [ackTimeout, same]; rfl⟩
      simp only [d, accepted]
      split <;> exact sound.congr rfl rfl
    let stableAfter :=
      if (agreedKeepAlive config p).isZero then config.ackTimeout else agreedKeepAlive config p
    have greeted : ∀ call, Arms k d.agenda (({ d with connectCall := none }.supervise
        config.reconnect stableAfter).succeed call (.connAck p)).agenda := fun call =>
      arms_succeed ({ d with connectCall := none }.supervise config.reconnect stableAfter) call _
    have resumed : Arms k d.agenda
        ((d.supervise none stableAfter).resume config.ackTimeout).agenda :=
      arms_resume (e := d.supervise none stableAfter) kept.1 kept.2
    refine (e.arms_accepted config p).trans ?_
    simp only [Engine.connected, configured']
    split
    · exact greeted _
    · exact resumed

theorem arms_networkDown (e : Engine) (err : TransportError) :
    Arms k e.agenda (e.networkDown err).agenda := by
  unfold networkDown
  split
  · exact (e.arms_sendDisconnect _).trans (arms_connectionLost _ _)
  · exact (e.arms_sendDisconnect _).trans (arms_connectionLost _ _)
  · exact e.arms_connectionLost _

theorem arms_disconnect (e : Engine) (reason : DisconnectReason) :
    Arms k e.agenda (e.disconnect reason).agenda := by
  obtain ⟨said, lastOutgoing, -, -, -, he⟩ := e.disconnect_eq reason
  rw [he]
  exact .of_unarmed (said ++ e.partings) rfl rfl (List.append_assoc ..) (get?_empty _)

end

def Releases (e : Engine) (k : UInt16) (c : Command) : Prop :=
  ∃ packet, c = .incoming e.epoch packet ∧ e.session.Releases k packet

inductive Paces (k : UInt16) (c : Command) (e d : Engine) : Prop
  | arms (arms : Arms k e.agenda d.agenda)
  | disarms (unarmed : d.timers.get? (.ack k) = none)
  /-- The release is written, and the timer keeps to its time. -/
  | releases (answers : e.Releases k c) {x : Effect} (part : x.isOf k = true)
    (left : d.agenda = { e.agenda with effects := e.effects ++ [x] })

section

variable {w : World} {owed : CallId → Nat} {k : UInt16} {e : Engine}

theorem SettledBut.incoming_release (h : Settled w owed e) {packet : Packet}
    (releases : e.session.Releases k packet) : ∃ s, e.incoming packet =
      (e.withSession s).replied (some (.pubRel { packetId := k, reason := .success })) := by
  obtain ⟨a, t, rfl, rfl, success, ht, hq⟩ := releases
  let s : Session := { e.session with
    lastIncoming := e.now
    outgoing := e.session.outgoing.insert a.packetId
      { t with phase := .released, retries := 0, lastSent := e.now } }
  have received : e.session.receive e.now (.pubRec a) =
      (s, .ok (some (.pubRel { packetId := a.packetId, reason := .success }))) := by
    simp [Session.receive, Session.receivePubRec, Session.transaction?, ht, hq, success, s]
  have quiet : (e.withSession s).handleEvents = e.withSession s := by
    simp [Engine.handleEvents, Session.takeEvents, withSession, s, h.ledger.events_eq]
  refine ⟨s, ?_⟩
  rw [Engine.incoming, received]
  dsimp only
  rw [quiet]
  rfl

theorem SettledBut.paces_release (h : Settled w owed e) {packet : Packet}
    (releases : e.session.Releases k packet) :
    Paces k (.incoming e.epoch packet) e (e.incoming packet) := by
  have answers : e.Releases k (.incoming e.epoch packet) := ⟨packet, rfl, releases⟩
  obtain ⟨s, he⟩ := h.incoming_release releases
  rw [he, replied]
  split
  · exact .arms (.refl _)
  · unfold Engine.writeOrLose
    obtain ⟨link, bytes, -, -, -, he⟩ | ⟨link, err, -, -, he⟩ | ⟨-, err, -, he⟩ :=
      (e.withSession s).write_cases (.pubRel { packetId := k, reason := .success })
    all_goals rw [he]
    · exact .releases answers (x := .write none _ bytes) (Effect.isOf_iff.2 rfl) rfl
    · exact .arms ((e.withSession s).arms_connectionLost _)
    · exact .arms ((e.withSession s).arms_connectionLost _)

theorem SettledBut.arms_incoming (h : Settled w owed e) {packet : Packet}
    (other : ¬ e.session.Releases k packet) : Arms k e.agenda (e.incoming packet).agenda := by
  let arrived : Session := { e.session with lastIncoming := e.now }
  by_cases accepting :
      e.session.connection = .connecting ∧ ∃ p, packet = .connAck p ∧ p.code = .success
  · obtain ⟨connecting, p, rfl, success⟩ := accepting
    rw [h.incoming_connAck connecting success]
    exact arms_connected (e := e.welcomed) (h.ledger.sound.congr rfl rfl) p
  obtain ⟨err, he, fails⟩ | ⟨s, events, reply, hr, he, told, accepted⟩ := h.incoming_cases packet
  · rw [fails]
    exact ((e.withSession arrived).arms_sendDisconnect .protocolError).trans
      (arms_connectionLost _ _)
  · have answered : ∀ {d : Engine}, Arms k e.agenda d.agenda →
        Arms k e.agenda (d.replied reply).agenda := fun arms =>
      arms.trans (arms_replied _ fun packet hp part =>
        other (Session.releases_of_receive (hp ▸ he) part))
    rw [told]
    refine answered ?_
    cases hr with
    | noted | release => exact .refl _
    | message p received' =>
      exact arms_dispatch (e.withSession { arrived with received := received' }) p
    | @ended j t event ht ends =>
      cases event with
      | published i ack => exact arms_published (e.withSession (arrived.forget j)) i ack
      | subscribed p => exact arms_subscribed (e.withSession (arrived.forget j)) p
      | unsubscribed p => exact arms_unsubscribed (e.withSession (arrived.forget j)) p
      | _ => exact absurd ends id
    | accepted p hc => exact absurd ⟨hc, p, accepted p rfl⟩ accepting
    | rejected p hc =>
      exact arms_connectionLost (e.withSession { arrived with connection := .disconnected }) _
    | pong => exact arms_cancelTimer (e.withSession { arrived with awaitPingResp := false }) _
    | closed p => exact arms_connectionLost (e.withSession arrived.disconnecting) _

theorem SettledBut.arms_timer (h : Settled w owed e) (timer : Timer) (id : Nat) :
    Arms k e.agenda (e.timerFired timer id).agenda := by
  unfold Engine.timerFired
  split
  · refine (e.arms_cancelTimer timer).trans ?_
    cases timer with
    | connect => exact (e.cancelTimer .connect).arms_connectionLost _
    | ack j => exact arms_ackTimedOut (e := e.cancelTimer (.ack j)) h.ledger.sound j
    | keepAlive => exact (e.cancelTimer .keepAlive).arms_keepAliveDue
    | pingResp => exact (e.cancelTimer .pingResp).arms_connectionLost _
    | reconnect => exact (e.cancelTimer .reconnect).arms_startAttempt
  · exact .refl _

theorem SettledBut.paces_connect (h : Settled w owed e) (call : CallId) (config : Config) :
    Paces k (.connect call config) e (e.connect call config) := by
  unfold Engine.connect
  split
  · exact .arms (e.arms_fail call _)
  · split
    · exact .arms (e.arms_fail call _)
    · next gone =>
      -- no acknowledgement is awaited without a connection, so no timer is left to another timeout
      rw [not_not] at gone
      have unarmed : e.timers.get? (.ack k) = none := by
        have wanted := h.timers (.ack k) not_false
        rw [wants_of_disconnected gone] at wanted
        simpa using wanted
      exact .disarms (unarmed_startAttempt unarmed)

theorem SettledBut.paces (h : Settled w owed e) (k : UInt16) (c : Command) :
    Paces k c e (e.handle c) := by
  cases c with
  | connect call config => exact h.paces_connect call config
  | call call => exact .arms (e.arms_request call)
  | disconnect call reason =>
    exact .arms ((e.arms_disconnect reason).trans (arms_succeed _ call .disconnected))
  | cancel call => exact .arms (e.arms_cancelCall call)
  | opened epoch result =>
    rw [Engine.handle]
    split
    · exact .arms (e.arms_opened result)
    · exact .arms (.refl _)
  | incoming epoch packet =>
    rw [Engine.handle]
    split
    · next same =>
      subst same
      by_cases releases : e.session.Releases k packet
      · exact h.paces_release releases
      · exact .arms (h.arms_incoming releases)
    · exact .arms (.refl _)
  | networkDown epoch err =>
    rw [Engine.handle]
    split
    · exact .arms (e.arms_networkDown err)
    · exact .arms (.refl _)
  | timer timer id => exact .arms (h.arms_timer timer id)

end

end Engine

end MqttClient
