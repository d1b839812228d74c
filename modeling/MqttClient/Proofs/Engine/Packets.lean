import MqttClient.Proofs.Engine.Requests

/-! Packets of the broker leave the engine in order. -/

namespace MqttClient.Engine

variable {due : Timer → Prop} {w : World} {owed : CallId → Nat} {e : Engine}

theorem SettledBut.published (h : Settled w owed e) {k : UInt16} {p : Pending}
    (hp : e.pending[k]? = some p) {phase : Phase} (ha : p.Awaits phase)
    (hs : phase = .sent ∨ phase = .released) (ack : PublishAck) :
    Settled w owed ((e.forget k).published k ack) := by
  obtain ⟨owed', rfl, retired⟩ := h.retire (fun _ => nofun) hp
  have pending : ((e.forget k).cancelTimer (.ack k)).pending[k]? = some p := hp
  simp only [Engine.published, pending]
  refine SettledBut.drainBacklog ?_
  cases p with
  | publish id => exact retired.succeed id _
  | _ => rcases hs with rfl | rfl <;> cases ha

theorem SettledBut.subscribed (h : Settled w owed e) {p : SubAck} {q : Pending}
    (hq : e.pending[p.packetId]? = some q) (ha : q.Awaits .subscribing) :
    Settled w owed ((e.forget p.packetId).subscribed p) := by
  obtain ⟨owed', rfl, retired⟩ := h.retire (fun _ => nofun) hq
  have pending : ((e.forget p.packetId).cancelTimer (.ack p.packetId)).pending[p.packetId]?
    = some q := hq
  simp only [Engine.subscribed, pending]
  refine SettledBut.drainBacklog ?_
  cases q with
  | publish id => rcases ha with ha | ha <;> cases ha
  | subscribe id paths => exact (retired.subscriptions _).succeed id _
  | unsubscribe id => cases ha
  | resubscribe paths =>
    rw [Pending.call?, take_none]
    exact retired.subscriptions _

theorem SettledBut.unsubscribed (h : Settled w owed e) {p : UnsubAck} {q : Pending}
    (hq : e.pending[p.packetId]? = some q) (ha : q.Awaits .unsubscribing) :
    Settled w owed ((e.forget p.packetId).unsubscribed p) := by
  obtain ⟨owed', rfl, retired⟩ := h.retire (fun _ => nofun) hq
  have pending : ((e.forget p.packetId).cancelTimer (.ack p.packetId)).pending[p.packetId]?
    = some q := hq
  simp only [Engine.unsubscribed, pending]
  refine SettledBut.drainBacklog ?_
  cases q with
  | publish id => rcases ha with ha | ha <;> cases ha
  | unsubscribe id => exact retired.succeed id _
  | _ => cases ha

theorem SettledBut.dispatch (h : Settled w owed e) (p : Publish) :
    Settled w owed (e.dispatch p) := by
  unfold Engine.dispatch
  generalize e.subscriptions.handlersOf p.topic = handlers
  induction handlers generalizing e with
  | nil => exact h
  | cons handler rest ih => exact ih (h.emit (fun _ => rfl) rfl)

theorem SettledBut.release (h : Settled w owed e) {k : UInt16} {t : Transaction}
    (ht : e.session.outgoing[k]? = some t) (hq : t.isPublish .exactlyOnce = true) (now : Time) :
    Settled w owed (e.withSession { e.session with
      outgoing := e.session.outgoing.insert k
        { t with phase := .released, retries := 0, lastSent := now } }) := by
  have fits := h.ledger.sound.fits ht
  refine h.revise (h.ledger.sound.replace ht (fits.release hq now) rfl) (fun j => ?_) rfl rfl rfl
  simp only [Std.TreeMap.getElem?_insert, Std.LawfulEqCmp.compare_eq_iff_eq]
  split
  · next e' =>
    subst e'
    obtain ⟨p, hp, awaits⟩ := h.ledger.exists_pending ht
    rw [hp]
    cases p with
    | publish id => exact .inr rfl
    | _ => rcases fits.phase_of_isPublish hq with hs | hs <;>
        simp [Pending.Awaits, hs] at awaits
  · exact h.ledger.agrees j

theorem SettledBut.replayAll (ackTimeout : Duration) (packets : List Packet)
    (h : SettledBut (fun t => ∃ p ∈ packets, t = .ack (packetIdOf p)) w owed e)
    (hc : e.session.connection = .connected)
    (hp : ∀ p ∈ packets, e.session.outgoing[packetIdOf p]? ≠ none) :
    Settled w owed (e.replayAll ackTimeout packets).1 := by
  induction packets generalizing e with
  | nil => exact ⟨h.ledger, h.posture, fun t _ => h.timers t (by simp)⟩
  | cons packet rest ih =>
    have written := h.write packet
    have frame := e.write_eq packet
    rw [Engine.replayAll]
    rcases hw : e.write packet with ⟨e', err | _⟩
    all_goals
      rw [hw] at written frame
      obtain ⟨link, effects, lastOutgoing, rfl⟩ := frame
    · exact written.ledger.settled_connectionLost (fun hd => by simp [hc] at hd) _
    · refine ih (written.schedule (t := .ack (packetIdOf packet)) ⟨hc, ?_⟩ ?_ _) hc ?_
      · exact hp packet List.mem_cons_self
      · rintro u ⟨q, hq, rfl⟩
        rcases List.mem_cons.1 hq with rfl | hq
        · exact .inl rfl
        · exact .inr ⟨q, hq, rfl⟩
      · exact fun q hq => hp q (List.mem_cons_of_mem _ hq)

theorem SettledBut.resubscribe (h : Settled w owed e) : Settled w owed e.resubscribe := by
  unfold Engine.resubscribe
  split
  · exact h
  · simp only [Session.send]
    rcases hs : e.session.start e.now .subscribing fun k =>
      .subscribe { filters := e.subscriptions.filters, packetId := k } with ⟨s, err | packet⟩
    · obtain ⟨rfl, -⟩ := Session.start_eq_error hs
      exact h
    · have sent := h.start (p := .resubscribe (e.subscriptions.filters.map (·.path))) hs
        (fun _ => rfl) (fun _ _ => ⟨_, rfl, rfl⟩) rfl
      rwa [Pending.call?, take_none] at sent

theorem SettledBut.resume
    (h : SettledBut (fun t => ∃ k, t = .ack k ∧ e.session.outgoing[k]? ≠ none) w owed e)
    (hc : e.session.connection = .connected) (ackTimeout : Duration) :
    Settled w owed (e.resume ackTimeout) := by
  have get := e.session.getElem?_replay e.now
  have taken : SettledBut (fun t => ∃ k, t = .ack k ∧ e.session.outgoing[k]? ≠ none) w owed
      (e.withSession (e.session.replay e.now).1) := by
    refine h.revise (Session.replay_isSound h.ledger.sound e.now) (fun k => ?_) rfl rfl rfl
    have agrees := h.ledger.agrees k
    rw [get]
    cases hp : e.pending[k]? <;> cases ht : e.session.outgoing[k]? <;> simp_all [Agrees]
  have resent : Settled w owed ((e.withSession (e.session.replay e.now).1).replayAll ackTimeout
      (e.session.replay e.now).2).1 := by
    refine SettledBut.replayAll ackTimeout _
      ⟨taken.ledger, taken.posture, fun t ht => taken.timers t ?_⟩ hc fun p hp => ?_
    · rintro ⟨k, rfl, hk⟩
      obtain ⟨t, ht'⟩ := Option.ne_none_iff_exists'.1 hk
      refine ht ⟨t.resend, Session.mem_replay.2 ⟨k, t, ht', rfl⟩, ?_⟩
      rw [(h.ledger.sound.fits ht').packetIdOf_resend]
    · obtain ⟨k, t, ht, rfl⟩ := Session.mem_replay.1 hp
      rw [(h.ledger.sound.fits ht).packetIdOf_resend]
      change (e.session.replay e.now).1.outgoing[k]? ≠ none
      simp [get, ht]
  rw [Engine.resume]
  rcases hr : (e.withSession (e.session.replay e.now).1).replayAll ackTimeout
    (e.session.replay e.now).2 with ⟨e', _ | _⟩
  all_goals
    rw [hr] at resent
    simp only [hr]
  · exact resent
  · exact resent.resubscribe.drainBacklog

def established (e : Engine) (config : Config) (p : ConnAck) (timers : Timers) (lastTimerId : Nat) :
    Engine :=
  { e with
    session := { e.session with maxInflight := agreedInflight config p }
    keepAlive := agreedKeepAlive config p
    timers
    lastTimerId }

theorem connected_cases {e : Engine} {config : Config} (he : e.config = some config)
    (idle : ∀ t, (e.timers.erase .connect).get? t = none) (p : ConnAck) :
    ∃ timers lastTimerId stableAfter,
      (∀ t, (timers.get? t).isSome ↔
        t = .keepAlive ∧ (agreedKeepAlive config p).isZero = false) ∧
      ((∃ call, e.connectCall = some call ∧ e.connected p =
          ({ e.established config p timers lastTimerId with connectCall := none }.supervise
            config.reconnect stableAfter).succeed call (.connAck p)) ∨
        e.connectCall = none ∧ e.connected p =
          ((e.established config p timers lastTimerId).supervise none stableAfter).resume
            config.ackTimeout) := by
  let keepAlive := agreedKeepAlive config p
  let stableAfter := if keepAlive.isZero then config.ackTimeout else keepAlive
  let started := e.cancelTimer .connect
  let session := { started.session with maxInflight := agreedInflight config p }
  let base : Engine := { started.withSession session with keepAlive }
  obtain ⟨timers, lastTimerId, hk, ht⟩ : ∃ timers lastTimerId,
      (if keepAlive.isZero then base else base.schedule .keepAlive keepAlive)
        = e.established config p timers lastTimerId ∧
      ∀ t, (timers.get? t).isSome ↔ t = .keepAlive ∧ keepAlive.isZero = false := by
    split
    · next hz => exact ⟨e.timers.erase .connect, e.lastTimerId, rfl, fun t => by simp [idle, hz]⟩
    · next hz =>
      refine ⟨_, _, rfl, fun t => ?_⟩
      by_cases e' : t = .keepAlive
      · subst e'
        simpa [Timers.get?_set_self] using hz
      · have untouched : (e.timers.erase .connect).get? t = none := idle t
        simp [base, started, session, withSession, Engine.cancelTimer, Timers.get?_set_of_ne _ _ e',
          untouched, e']
  have configured : (e.cancelTimer .connect).config = some config := he
  have same : (e.established config p timers lastTimerId).connectCall = e.connectCall := rfl
  refine ⟨timers, lastTimerId, stableAfter, ht, ?_⟩
  simp only [Engine.connected, configured]
  rw [hk, same]
  cases hcall : e.connectCall with
  | some call => exact .inl ⟨call, rfl, rfl⟩
  | none => exact .inr ⟨rfl, rfl⟩

theorem SettledBut.unarmed (h : Settled w owed e) (hc : e.session.connection = .connecting)
    (t : Timer) : (e.timers.erase .connect).get? t = none := by
  by_cases e' : t = .connect
  · rw [e', Timers.get?_erase_self]
  · have := h.timers t id
    rw [wants_of_connecting hc] at this
    rw [Timers.get?_erase_of_ne _ e']
    simpa [e'] using this

theorem SettledBut.connected (h : Settled w owed e)
    (hc : e.session.connection = .connecting) (hl : e.link.isSome) (p : ConnAck) :
    Settled w owed
      ((e.withSession { e.session with connection := .connected }).connected p) := by
  have posture := h.posture
  have hconfig := posture.config_isSome (by simp [hc])
  obtain ⟨config, he⟩ := Option.isSome_iff_exists.1 hconfig
  have idle := h.unarmed hc
  have opening : e.opening = false := by
    have := posture.opening_iff
    simpa [Option.isSome_iff_ne_none.1 hl] using this
  have await := posture.awaitPingResp_eq (by simp [hc])
  let e₁ := e.withSession { e.session with connection := .connected }
  obtain ⟨timers, lastTimerId, stableAfter, ht, ⟨call, hcall, heq⟩ | ⟨hcall, heq⟩⟩ :=
    connected_cases (e := e₁) he idle p
  all_goals
    rw [heq]
    have ledger : Ledger w owed (e₁.established config p timers lastTimerId) :=
      { h.ledger with sound := h.ledger.sound.congr rfl rfl, events_eq := h.ledger.events_eq }
  · have fresh := posture.fresh (Option.isSome_iff_exists.2 ⟨call, hcall⟩)
    have answered := ledger.answerConnect hcall (show .ok (.connAck p) ≠ _ by simp)
    refine .of_connected
      { answered with supervisor_eq := nofun, config_isSome := fun _ => hconfig }
      rfl hl opening rfl hconfig fun t _ => (ht t).trans ?_
    cases t <;> simp [Wants, Engine.succeed, Engine.emit, supervise, established, e₁, withSession,
      await, fresh]
  · let e₂ := (e₁.established config p timers lastTimerId).supervise none stableAfter
    have called : e₂.connectCall = none := hcall
    have ledger₂ : Ledger w owed e₂ :=
      { ledger with
        supervisor_eq := fun hs => by simp [called] at hs
        config_isSome := fun _ => hconfig }
    refine SettledBut.resume (e := e₂) (.of_connected ledger₂ rfl hl opening called hconfig
      fun t hd => (ht t).trans ?_) rfl _
    cases t with
    | ack k =>
      have none : e.session.outgoing[k]? = none := by
        by_contra some
        exact hd ⟨k, rfl, some⟩
      simp [Wants, e₂, supervise, established, e₁, withSession, none]
    | _ => simp [Wants, e₂, supervise, established, e₁, withSession, await]

theorem handleEvents_eq {s : Session} (quiet : e.session.events = []) (same : s.events = [])
    (events : List Event) :
    (e.withSession { s with events := e.session.events ++ events }).handleEvents
      = events.foldl handleEvent (e.withSession s) := by
  rw [Engine.handleEvents]
  simp only [Session.takeEvents, withSession, quiet, List.nil_append]
  rw [← same]

theorem SettledBut.handleEvents (h : Settled w owed e) (ho : w.opened e.epoch) {now : Time}
    {s : Session} {events : List Event} (r : Session.Receipt now e.session s events) :
    Settled w owed (events.foldl handleEvent (e.withSession s)) := by
  cases r with
  | noted received => exact h.setSession rfl rfl rfl rfl rfl
  | message p received =>
    have noted := h.setSession (s := { e.session with received }) rfl rfl rfl rfl rfl
    exact noted.dispatch p
  | release ht hq => exact h.release ht hq now
  | @ended k t event ht he =>
    obtain ⟨q, hq, awaits⟩ := h.ledger.exists_pending ht
    cases event with
    | published j ack =>
      obtain ⟨rfl, hs⟩ := he
      exact h.published hq awaits hs ack
    | subscribed p =>
      obtain ⟨rfl, hs⟩ := he
      exact h.subscribed hq (hs ▸ awaits)
    | unsubscribed p =>
      obtain ⟨rfl, hs⟩ := he
      exact h.unsubscribed hq (hs ▸ awaits)
    | _ => exact absurd he id
  | accepted p hc => exact h.connected hc (h.posture.link_isSome_of_opened hc ho) p
  | rejected p hc =>
    have link := h.posture.link_isSome_of_opened hc ho
    exact (h.ledger.setSession (s := { e.session with connection := .disconnected }) rfl rfl
      rfl).settled_connectionLost (fun _ => link) _
  | pong =>
    have answered : SettledBut (· = .pingResp) w owed
        (e.withSession { e.session with awaitPingResp := false }) := by
      refine ⟨h.ledger.setSession rfl rfl rfl, { h.posture with awaitPingResp_eq := fun _ => rfl },
        fun t ht => (h.timers t id).trans ?_⟩
      cases t with
      | pingResp => exact absurd rfl ht
      | _ => exact Iff.rfl
    exact answered.cancelTimer (.inl (by simp [Wants, withSession])) fun _ hu => .inl hu
  | closed p =>
    refine (h.ledger.setSession (s := e.session.disconnecting) rfl rfl rfl).settled_connectionLost
      (fun hd => ?_) _
    cases hd

theorem SettledBut.incoming (h : Settled w owed e) (ho : w.opened e.epoch) (packet : Packet) :
    Settled w owed (e.incoming packet) := by
  let arrived : Session := { e.session with lastIncoming := e.now }
  have heard : Settled w owed (e.withSession arrived) := h.setSession rfl rfl rfl rfl rfl
  obtain ⟨err, he⟩ | ⟨s, events, reply, hr, he⟩ :=
    Session.receive_cases h.ledger.sound e.now packet
  all_goals rw [Engine.incoming, he]
  · exact (heard.put _).connectionLost _
  · have quiet : s.events = [] := hr.events_eq.trans h.ledger.events_eq
    have told : Settled w owed
        ((e.withSession { s with events := e.session.events ++ events }).handleEvents) := by
      rw [handleEvents_eq h.ledger.events_eq quiet]
      exact heard.handleEvents ho hr
    cases reply with
    | none => exact told
    | some packet =>
      dsimp only
      split
      · exact told
      · exact told.writeOrLose packet

end MqttClient.Engine
