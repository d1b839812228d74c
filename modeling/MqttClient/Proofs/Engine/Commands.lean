import MqttClient.Proofs.Engine.Packets
import MqttClient.Simulation

/-! Every command leaves the engine in order. -/

namespace MqttClient

def Command.Opens (c : Command) (epoch : Nat) : Prop := ∃ room, c = .opened epoch (.ok room)

namespace Engine

def World.after (w : World) (c : Command) : World :=
  { w with opened := fun n => w.opened n ∨ c.Opens n }

/-- No more is owed than before, and as much to every caller that has not left. -/
def Spares (left : CallId → Prop) (owed owed' : CallId → Nat) : Prop :=
  ∀ c, owed' c ≤ owed c ∧ (¬ left c → owed' c = owed c)

theorem Spares.refl (left : CallId → Prop) (owed : CallId → Nat) : Spares left owed owed :=
  fun _ => ⟨Nat.le_refl _, fun _ => rfl⟩

theorem Spares.untaken (left : CallId → Prop) (owed : CallId → Nat) :
    Spares left (take owed none) owed := by
  rw [take_none]
  exact Spares.refl left owed

variable {due : Timer → Prop} {w : World} {owed : CallId → Nat} {e : Engine}

theorem SettledBut.connect (h : Settled w owed e) (call : CallId) (config : Config) :
    Settled w (take owed (some call)) (e.connect call config) := by
  unfold Engine.connect
  split
  · exact h.fail call (by simp)
  · next hs =>
    split
    · exact h.fail call (by simp)
    · next hc =>
      have hd : e.session.connection = .disconnected := by simpa using hc
      have unplanned : e.supervisor = none := by simpa using hs
      have uncalled := h.posture.connectCall_eq (by simp [hd])
      obtain ⟨empty, -⟩ := h.posture.idle hd unplanned
      have account := account_connectCall (e := { e with connectCall := some call }) rfl
      have before : ({ e with connectCall := none } : Engine).account = owed := by
        rw [← h.ledger.account_eq, ← uncalled]
      refine Ledger.settled_startAttempt ?_ hd rfl (h.posture.link_eq_none hd)
        (h.posture.awaitPingResp_eq (by simp [hd])) (fun _ => empty) fun t => ?_
      · exact { h.ledger with
          sound := h.ledger.sound.congr rfl rfl
          account_eq := by
            rw [← before]
            exact account.symm
          supervisor_eq := fun _ => unplanned
          config_isSome := fun _ => rfl }
      · have idle := h.timers t id
        rw [wants_of_disconnected hd, unplanned] at idle
        change e.timers.get? t = none
        simpa using idle

theorem SettledBut.reconnect (h : Settled w owed e)
    (hd : e.session.connection = .disconnected) (hs : e.supervisor.isSome) :
    Settled w owed (e.cancelTimer .reconnect).startAttempt := by
  have uncalled := h.posture.connectCall_eq (by simp [hd])
  refine Ledger.settled_startAttempt { h.ledger with events_eq := h.ledger.events_eq } hd
    (h.ledger.config_isSome hs) (h.posture.link_eq_none hd)
    (h.posture.awaitPingResp_eq (by simp [hd])) (fun hc => ?_) fun t => ?_
  · simp [Engine.cancelTimer, uncalled] at hc
  · by_cases e' : t = .reconnect
    · subst e'
      exact Timers.get?_erase_self e.timers .reconnect
    · have := h.timers t id
      rw [wants_of_disconnected hd] at this
      exact (Timers.get?_erase_of_ne _ e').trans (by simpa [e'] using this)

theorem Ledger.attemptEnded (h : Ledger w owed e) (result : Except TransportError (Option Nat))
    (link : Option Link) :
    Ledger (w.after (.opened e.epoch result)) owed { e with opening := false, link } := by
  have opened_le : ∀ {n}, (w.after (.opened e.epoch result)).opened n → n ≤ e.epoch := by
    rintro n (hn | ⟨room, hn⟩)
    · exact h.opened_le hn
    · cases hn
      exact Nat.le_refl _
  exact { h with events_eq := h.events_eq, opened_le := opened_le }

theorem SettledBut.attemptIgnored (h : Settled w owed e)
    (hd : e.session.connection = .disconnected) (result : Except TransportError (Option Nat)) :
    Settled (w.after (.opened e.epoch result)) owed { e with opening := false } :=
  ⟨h.ledger.attemptEnded result e.link,
    { h.posture with
      link_isSome_of_opened := fun hc => by
        have connecting : e.session.connection = .connecting := hc
        simp [hd] at connecting
      opening_iff := by simp [hd] },
    h.timers⟩

theorem SettledBut.socketOpened (h : Settled w owed e) (room : Option Nat) :
    Settled (w.after (.opened e.epoch (.ok room))) owed (e.opened (.ok room)) := by
  unfold Engine.opened
  dsimp only
  split
  · next heq => cases heq
  · next hconfig =>
    refine h.attemptIgnored ?_ _
    by_contra hd
    have configured := h.posture.config_isSome hd
    simp [show e.config = none from hconfig] at configured
  · next config heq hconfig =>
    cases heq
    let e₁ : Engine := { e with
      opening := false
      link := some { maxOutgoing := config.maxOutgoing, room } }
    have ledger := h.ledger.attemptEnded (.ok room) e₁.link
    by_cases hc : e.session.connection = .connecting
    · have greeting : e₁.session.send e₁.now (.connect config.connectPacket)
          = (e.session, .ok (.connect config.connectPacket)) := by
        simp [e₁, Session.send, hc]
      have linked : Settled (w.after (.opened e.epoch (.ok room))) owed e₁ :=
        ⟨ledger,
          { h.posture with
            link_eq_none := fun hd => by simp [e₁, hc] at hd
            link_isSome := fun _ => rfl
            link_isSome_of_opened := fun _ _ => rfl
            opening_iff := by simp [e₁] },
          h.timers⟩
      rw [greeting]
      exact linked.writeOrLose _
    · have refused : e₁.session.send e₁.now (.connect config.connectPacket)
          = (e.session, .error (.invalidState e.session.connection)) := by
        simp [e₁, Session.send, hc]
      rw [refused]
      exact ledger.settled_connectionLost (fun _ => rfl) _

theorem SettledBut.attemptEnded (h : Settled w owed e)
    (result : Except TransportError (Option Nat)) :
    Settled (w.after (.opened e.epoch result)) owed (e.opened result) := by
  cases result with
  | error err =>
    by_cases hd : e.session.connection = .disconnected
    · exact (h.attemptIgnored hd _).connectionLost _
    · exact (h.ledger.attemptEnded _ e.link).settled_connectionLost (fun hd' => absurd hd' hd) _
  | ok room => exact h.socketOpened room

theorem SettledBut.networkDown (h : Settled w owed e) (err : TransportError) :
    Settled w owed (e.networkDown err) := by
  unfold Engine.networkDown
  refine SettledBut.connectionLost ?_ _
  split
  · exact h.put _
  · exact h.put _
  · exact h

theorem SettledBut.dropExpired {k : UInt16} (h : SettledBut (· = .ack k) w owed e)
    (ht : e.timers.get? (.ack k) = none) {p : Pending} (hp : e.pending[k]? = some p) :
    ∃ owed', owed = take owed' p.call? ∧ Settled w owed' ((e.forget k).erasePending k) := by
  obtain ⟨owed', ho, dropped⟩ := h.drop (fun _ hu => hu) hp
  refine ⟨owed', ho, dropped.settled ?_⟩
  simp [Wants, Engine.forget, erasePending, withSession, Session.forget, ht]

theorem SettledBut.expire {k : UInt16} (h : SettledBut (· = .ack k) w owed e)
    (ht : e.timers.get? (.ack k) = none) {p : Pending} (hp : e.pending[k]? = some p)
    (policy : TimeoutPolicy) : Settled w owed ((e.forget k).expire k policy) := by
  obtain ⟨owed', rfl, gone⟩ := h.dropExpired ht hp
  have pending : (e.forget k).pending[k]? = some p := hp
  simp only [Engine.expire, pending]
  cases p with
  | publish id =>
    have failed := gone.fail id (show .publishTimeout k ≠ _ by simp)
    cases policy with
    | drop => exact failed.drainBacklog
    | reset => exact failed.connectionLost _
  | subscribe id paths =>
    have unsubscribed := (gone.subscriptions (e.subscriptions.eraseAll paths)).fail id
      (show .subscribeTimeout k ≠ _ by simp)
    cases policy with
    | drop => exact unsubscribed.drainBacklog
    | reset => exact unsubscribed.connectionLost _
  | unsubscribe | resubscribe =>
    have failed := fun q => gone.failPending q (show .transactionTimeout k ≠ _ by simp)
    cases policy with
    | drop => exact (failed _).drainBacklog
    | reset => exact (failed _).connectionLost _

theorem SettledBut.resend {k : UInt16} (h : SettledBut (· = .ack k) w owed e)
    (hc : e.session.connection = .connected) {t : Transaction}
    (ht : e.session.outgoing[k]? = some t) (retries : Nat) (packet : Packet) :
    let s : Session := { e.session with
      outgoing := e.session.outgoing.insert k { t with retries, lastSent := e.now } }
    Settled w owed (match (e.withSession s).write packet with
      | (e, .ok ()) => e.schedule (.ack k) e.ackTimeout
      | (e, .error err) => e.connectionLost (.transport err)) := by
  intro s
  have touched : SettledBut (· = .ack k) w owed (e.withSession s) := by
    refine h.revise (h.ledger.sound.replace ht ((h.ledger.sound.fits ht).touch retries e.now) rfl)
      (fun j => ?_) rfl rfl rfl
    simp only [s, Std.TreeMap.getElem?_insert, Std.LawfulEqCmp.compare_eq_iff_eq]
    split
    · next e' =>
      subst e'
      obtain ⟨p, hp, awaits⟩ := h.ledger.exists_pending ht
      rw [hp]
      exact awaits
    · exact h.ledger.agrees j
  have written := touched.write packet
  have frame := (e.withSession s).write_eq packet
  rcases hw : (e.withSession s).write packet with ⟨e', err | _⟩
  all_goals
    rw [hw] at written frame
    obtain ⟨link, effects, lastOutgoing, rfl⟩ := frame
  · exact written.ledger.settled_connectionLost (fun hd => by simp [withSession, s, hc] at hd) _
  · refine written.schedule (t := .ack k) ⟨hc, ?_⟩ (fun _ hu => .inl hu) _
    simp [withSession, s]

theorem SettledBut.ackTimedOut {k : UInt16} (h : SettledBut (· = .ack k) w owed e)
    (hc : e.session.connection = .connected) (ht : e.timers.get? (.ack k) = none)
    {t : Transaction} (hk : e.session.outgoing[k]? = some t) :
    ∃ owed', Spares (w.abandoned.contains ·) owed owed' ∧ Settled w owed' (e.ackTimedOut k) := by
  obtain ⟨p, hp, awaits⟩ := h.ledger.exists_pending hk
  unfold Engine.ackTimedOut
  split
  · next ha =>
    -- only a call whose caller left goes without an answer
    obtain ⟨owed', rfl, gone⟩ := h.dropExpired ht hp
    refine ⟨owed', fun c => ⟨?_, fun stays => ?_⟩, gone.drainBacklog⟩
    · exact Nat.le_add_right _ _
    · rw [take, if_neg, Nat.add_zero]
      intro e'
      simp [hp, isAbandoned, e', h.ledger.abandoned_eq, stays] at ha
  · refine ⟨owed, Spares.refl _ _, ?_⟩
    split
    · next hconfig =>
      have := h.posture.config_isSome (by simp [hc])
      simp [hconfig] at this
    · next config hconfig =>
      obtain ⟨hn, -⟩ | ⟨u, hu, he | ⟨hr, he⟩⟩ :=
        Session.retransmit_cases e.session e.now k config.maxRetries
      · simp [hk] at hn
      · rw [he]
        exact h.expire ht hp _
      · rw [hk, Option.some.injEq] at hu
        subst hu
        rw [he]
        exact h.resend hc hk _ _

theorem SettledBut.keepAliveDue (h : SettledBut (· = .keepAlive) w owed e)
    (hc : e.session.connection = .connected) (hk : e.keepAlive.isZero = false) :
    Settled w owed e.keepAliveDue := by
  have lost : ∀ cause, Settled w owed (e.connectionLost cause) := fun cause =>
    h.ledger.settled_connectionLost (fun hd => by simp [hc] at hd) cause
  unfold Engine.keepAliveDue
  dsimp only
  split
  · exact h.schedule (t := .keepAlive) ⟨hc, hk⟩ (fun _ hu => .inl hu) _
  · by_cases hp : e.session.awaitPingResp = true
    · have waits : e.session.send e.now .pingReq = (e.session, .error .awaitPingResp) := by
        simp [Session.send, Session.sendPing, hc, hp]
      rw [waits]
      exact lost _
    · let s : Session := { e.session with awaitPingResp := true }
      have pings : e.session.send e.now .pingReq = (s, .ok .pingReq) := by
        simp [Session.send, Session.sendPing, hc, hp, s]
      rw [pings]
      have pinged : SettledBut (fun t => t = .keepAlive ∨ t = .pingResp) w owed
          (e.withSession s) := by
        refine ⟨h.ledger.setSession rfl rfl rfl, { h.posture with
          awaitPingResp_eq := fun hd => absurd hc hd }, fun t ht => ?_⟩
        refine (h.timers t fun e' => ht (.inl e')).trans ?_
        cases t with
        | pingResp => exact absurd (.inr rfl) ht
        | _ => exact Iff.rfl
      have written := pinged.write .pingReq
      have frame := (e.withSession s).write_eq .pingReq
      dsimp only
      rcases hw : (e.withSession s).write .pingReq with ⟨e', err | _⟩
      all_goals
        rw [hw] at written frame
        obtain ⟨link, effects, lastOutgoing, rfl⟩ := frame
      · exact written.ledger.settled_connectionLost (fun hd => by simp [withSession, s, hc] at hd) _
      · have armed : SettledBut (· = .keepAlive) w owed (Engine.schedule _ .pingResp _) :=
          written.schedule (t := .pingResp) ⟨hc, rfl⟩ (fun _ hu => hu.symm)
            (e.config.elim e.keepAlive Config.pingGrace)
        exact armed.schedule (t := .keepAlive) ⟨hc, hk⟩ (fun _ hu => .inl hu) _

theorem SettledBut.timerFired (h : Settled w owed e) (timer : Timer) (id : Nat) :
    ∃ owed', Spares (w.abandoned.contains ·) owed owed' ∧
      Settled w owed' (e.timerFired timer id) := by
  unfold Engine.timerFired
  split
  · next ha =>
    have armed : (e.timers.get? timer).isSome := by
      cases ht : e.timers.get? timer with
      | none => simp [ht] at ha
      | some a => rfl
    have wanted := (h.timers timer not_false).1 armed
    have fired : SettledBut (· = timer) w owed (e.cancelTimer timer) :=
      h.cancelTimer (.inr rfl) fun _ hu => hu.elim
    cases timer with
    | connect =>
      refine ⟨owed, Spares.refl _ _, fired.ledger.settled_connectionLost (fun hd => ?_) _⟩
      exact absurd (wanted.symm.trans hd) (by decide)
    | ack k =>
      obtain ⟨t, ht⟩ := Option.ne_none_iff_exists'.1 wanted.2
      exact fired.ackTimedOut wanted.1 (Timers.get?_erase_self e.timers (.ack k)) ht
    | keepAlive =>
      exact ⟨owed, Spares.refl _ _, fired.keepAliveDue wanted.1 wanted.2⟩
    | pingResp =>
      refine ⟨owed, Spares.refl _ _, fired.ledger.settled_connectionLost (fun hd => ?_) _⟩
      exact absurd (wanted.1.symm.trans hd) (by decide)
    | reconnect => exact ⟨owed, Spares.refl _ _, h.reconnect wanted.1 wanted.2⟩
  · exact ⟨owed, Spares.refl _ _, h⟩

theorem Ledger.settled_disconnected (h : Ledger w owed e) (hs : e.supervisor = none) :
    (∀ call, e.teardown.connectCall = some call → Settled w owed
      { (({ e.teardown with connectCall := none }.fail call .disconnected).failAll
          .disconnected).cleanSession with subscriptions := {} }) ∧
    (e.teardown.connectCall = none → Settled w owed
      { (e.teardown.failAll .disconnected).cleanSession with subscriptions := {} }) := by
  have told : ClientError.disconnected ≠ .session .wrongPacket := by simp
  have torn := h.teardown
  obtain ⟨effects, -, he⟩ := e.teardown_eq
  rw [he] at torn ⊢
  refine ⟨fun call hcall => ?_, fun hcall => ?_⟩
  · have answered := torn.answerConnect hcall fun e' => told (Except.error.inj e')
    exact answered.settled_abort rfl rfl rfl rfl hs rfl _ told _
  · exact torn.settled_abort rfl rfl rfl hcall hs rfl _ told _

theorem SettledBut.disconnect (h : Settled w owed e) (reason : DisconnectReason) :
    Settled w owed (e.disconnect reason) := by
  have unplanned : Ledger w owed { e with supervisor := none } :=
    { h.ledger with supervisor_eq := fun _ => rfl, config_isSome := by simp }
  have farewell : e.session.send e.now (.disconnect { reason })
      = (e.session.disconnecting, .ok (.disconnect { reason })) := rfl
  cases hc : ({ e with supervisor := none } : Engine).isConnected with
  | true =>
    have leaving := unplanned.setSession (s := e.session.disconnecting) rfl rfl rfl
    have written := leaving.write (.disconnect { reason })
    obtain ⟨link, effects, lastOutgoing, frame⟩ :=
      (Engine.withSession { e with supervisor := none } e.session.disconnecting).write_eq
        (.disconnect { reason })
    obtain ⟨answered, unasked⟩ := written.settled_disconnected (by rw [frame]; rfl)
    simp only [Engine.disconnect, hc, farewell]
    split
    · next call hcall => exact answered call hcall
    · next hcall => exact unasked hcall
  | false =>
    obtain ⟨answered, unasked⟩ := unplanned.settled_disconnected rfl
    simp only [Engine.disconnect, hc, farewell]
    split
    · next call hcall => exact answered call hcall
    · next hcall => exact unasked hcall

def World.Left (w : World) (c : Command) (call : CallId) : Prop :=
  c = .cancel call ∨ w.abandoned.contains call = true

/-- No socket comes before it was asked for, and no packet comes before its socket. -/
def Heard (w : World) (e : Engine) : Command → Prop
  | .opened epoch _ => epoch ≤ e.epoch
  | .incoming epoch _ => w.opened epoch
  | _ => True

theorem SettledBut.handle (h : Settled w owed e) {c : Command} (hc : Heard w e c) :
    ∃ owed', Spares (w.Left c) (take owed c.call?) owed' ∧
      Settled (w.after c) owed' (e.handle c) := by
  have same : ∀ {owed' d}, (∀ n, ¬ c.Opens n) → Settled w owed' d →
      Settled (w.after c) owed' d := by
    intro owed' d hn hd
    have unchanged : w.after c = w := by simp [World.after, hn]
    rwa [unchanged]
  cases c with
  | connect call config => exact ⟨_, Spares.refl _ _, same (fun _ => nofun) (h.connect call config)⟩
  | call c => exact ⟨_, Spares.refl _ _, same (fun _ => nofun) (h.request c false)⟩
  | disconnect call reason =>
    exact ⟨_, Spares.refl _ _, same (fun _ => nofun) ((h.disconnect reason).succeed call _)⟩
  | cancel call =>
    obtain ⟨owed', others, le, settled⟩ := h.cancelCall call
    refine ⟨owed', fun c => ?_, same (fun _ => nofun) settled⟩
    simp only [Command.call?, take_none]
    by_cases e' : c = call
    · exact ⟨e' ▸ le, fun stays => absurd (.inl (by rw [e'])) stays⟩
    · exact ⟨Nat.le_of_eq (others c e'), fun _ => others c e'⟩
  | opened epoch result =>
    refine ⟨owed, .untaken _ _, ?_⟩
    rw [Engine.handle]
    split
    · next he => exact he ▸ h.attemptEnded result
    · next ne =>
      refine ⟨{ h.ledger with opened_le := ?_ }, { h.posture with
        link_isSome_of_opened := fun hd hn => h.posture.link_isSome_of_opened hd ?_ }, h.timers⟩
      · rintro n (hn | ⟨room, hn⟩)
        · exact h.ledger.opened_le hn
        · cases hn
          exact hc
      · refine hn.resolve_right ?_
        rintro ⟨room, hn⟩
        cases hn
        exact ne rfl
  | incoming epoch packet =>
    refine ⟨owed, .untaken _ _, same (fun _ => nofun) ?_⟩
    rw [Engine.handle]
    split
    · next he => exact h.incoming (he ▸ hc) packet
    · exact h
  | networkDown epoch err =>
    refine ⟨owed, .untaken _ _, same (fun _ => nofun) ?_⟩
    rw [Engine.handle]
    split
    · exact h.networkDown err
    · exact h
  | timer timer id =>
    obtain ⟨owed', spares, settled⟩ := h.timerFired timer id
    refine ⟨owed', fun c => ?_, same (fun _ => nofun) settled⟩
    simp only [Command.call?, take_none]
    exact ⟨(spares c).1, fun stays => (spares c).2 fun gone => stays (.inr gone)⟩

end Engine

end MqttClient
