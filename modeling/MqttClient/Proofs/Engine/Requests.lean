import MqttClient.Proofs.Engine.Settled

/-! Calls on their way to the broker leave the engine in order, and each is in its account once it
was taken, whether it was sent, held back or refused. -/

namespace MqttClient.Engine

variable {due : Timer → Prop} {w : World} {owed : CallId → Nat} {e : Engine}

theorem SettledBut.settled {t : Timer} (h : SettledBut (· = t) w owed e)
    (ht : (e.timers.get? t).isSome ↔ e.Wants t) : Settled w owed e := by
  refine ⟨h.ledger, h.posture, fun u _ => ?_⟩
  by_cases hu : u = t
  · exact hu ▸ ht
  · exact h.timers u hu

theorem SettledBut.subscriptions (h : SettledBut due w owed e)
    (subscriptions : SubscriptionTable HandlerId) :
    SettledBut due w owed { e with subscriptions } :=
  ⟨{ h.ledger with events_eq := h.ledger.events_eq }, { h.posture with fresh := h.posture.fresh },
    h.timers⟩

theorem SettledBut.failPending (h : SettledBut due w owed e) (p : Pending) {err : ClientError}
    (he : err ≠ .session .wrongPacket) :
    SettledBut due w (take owed p.call?) (e.failPending p err) := by
  unfold Engine.failPending
  split
  · next call hc =>
    rw [hc]
    exact h.fail call he
  · next hc =>
    rw [hc, take_none]
    exact h

theorem SettledBut.track (h : Settled w owed e) (hc : e.session.connection = .connected)
    {k : UInt16} (free : e.session.outgoing[k]? = none) (ne : k ≠ 0) {packet : Packet}
    {phase : Phase} (hp : Transaction.HoldsPacket
      { packetId := k, packet, phase, lastSent := e.now, order := e.session.lastOrder + 1 })
    {p : Pending} (ha : p.Awaits phase) :
    SettledBut (· = .ack k) w (take owed p.call?) { e with
      session := e.session.track e.now k packet phase
      pending := e.pending.insert k p } := by
  have unheld : e.pending[k]? = none := (h.ledger.agrees k).eq_none_iff.2 free
  refine ⟨?_, ?_, fun t ht => ?_⟩
  · exact { h.ledger with
      sound := h.ledger.sound.track ne hp
      events_eq := h.ledger.events_eq
      agrees := fun j => by
        simp only [Session.track, Std.TreeMap.getElem?_insert, Std.LawfulEqCmp.compare_eq_iff_eq]
        split
        · exact ha
        · exact h.ledger.agrees j
      account_eq := by
        rw [← h.ledger.account_eq]
        exact account_insert unheld p }
  · have posture := h.posture
    exact { posture with
      fresh := fun hs => by simp [posture.connectCall_eq (by simp [hc])] at hs
      idle := fun hd => by simp [Session.track, hc] at hd }
  · refine (h.timers t id).trans ?_
    cases t with
    | ack j =>
      have other : k ≠ j := fun e => ht (e ▸ rfl)
      simp [Wants, Session.track, Std.TreeMap.getElem?_insert, other]
    | _ => exact Iff.rfl

theorem SettledBut.drop (h : SettledBut due w owed e) {k : UInt16}
    (hd : ∀ t, due t → t = .ack k) {p : Pending} (hp : e.pending[k]? = some p) :
    ∃ owed', owed = take owed' p.call? ∧
      SettledBut (· = .ack k) w owed' ((e.forget k).erasePending k) := by
  have account : take ((e.forget k).erasePending k).account p.call? = owed :=
    (account_erase (e := e.forget k) hp).trans h.ledger.account_eq
  refine ⟨_, account.symm, ?_, ?_, fun t ht => ?_⟩
  · exact { h.ledger with
      sound := h.ledger.sound.forget k
      agrees := fun j => by
        simp only [Engine.forget, erasePending, withSession, Session.forget,
          Std.TreeMap.getElem?_erase]
        split
        · trivial
        · exact h.ledger.agrees j
      account_eq := rfl }
  · have gone : ∀ {j : UInt16}, e.session.outgoing[j]? = none →
        (e.forget k).session.outgoing[j]? = none := by
      intro j hj
      simp [Engine.forget, withSession, Session.forget, Std.TreeMap.getElem?_erase, hj]
    exact { h.posture with
      fresh := fun hs j => gone (h.posture.fresh hs j)
      idle := fun hc hs => ⟨fun j => gone ((h.posture.idle hc hs).1 j), (h.posture.idle hc hs).2⟩ }
  · refine (h.timers t fun dt => ht (hd t dt)).trans ?_
    cases t with
    | ack j =>
      have other : k ≠ j := fun e => ht (e ▸ rfl)
      simp [Wants, Engine.forget, erasePending, withSession, Session.forget,
        Std.TreeMap.getElem?_erase, other]
    | _ => exact Iff.rfl

theorem SettledBut.retire (h : SettledBut due w owed e) {k : UInt16}
    (hd : ∀ t, due t → t = .ack k) {p : Pending} (hp : e.pending[k]? = some p) :
    ∃ owed', owed = take owed' p.call? ∧
      Settled w owed' (((e.forget k).erasePending k).cancelTimer (.ack k)) := by
  obtain ⟨owed', ho, dropped⟩ := h.drop hd hp
  refine ⟨owed', ho, dropped.cancelTimer (.inl ?_) fun u hu => .inl hu⟩
  simp [Wants, Engine.forget, erasePending, withSession, Session.forget]

theorem SettledBut.transmit (h : Settled w owed e) (hc : e.session.connection = .connected)
    {k : UInt16} (free : e.session.outgoing[k]? = none) (ne : k ≠ 0) {packet : Packet}
    {phase : Phase} (hp : Transaction.HoldsPacket
      { packetId := k, packet, phase, lastSent := e.now, order := e.session.lastOrder + 1 })
    {p : Pending} (ha : p.Awaits phase) :
    Settled w (take owed p.call?)
      ((e.withSession (e.session.track e.now k packet phase)).transmit k packet p) := by
  let opened := e.withSession (e.session.track e.now k packet phase)
  let e₁ : Engine := { opened with pending := opened.pending.insert k p }
  have tracked : SettledBut (· = .ack k) w (take owed p.call?) e₁ := h.track hc free ne hp ha
  have written := tracked.write packet
  have idle : e.timers.get? (.ack k) = none := by
    have := h.timers (.ack k) id
    simpa [Wants, free] using this
  have frame := e₁.write_eq packet
  change Settled _ _ (opened.transmit k packet p)
  rcases hw : e₁.write packet with ⟨e₂, err | _⟩
  all_goals
    rw [hw] at written frame
    rw [Engine.transmit, hw]
    obtain ⟨link, effects, lastOutgoing, rfl⟩ := frame
  · cases err with
    | encoding err =>
      obtain ⟨owed', ho, dropped⟩ := written.drop (fun _ hu => hu)
        (show _ = some p from Std.TreeMap.getElem?_insert_self)
      rw [ho]
      have gone := dropped.settled (t := .ack k) (by
        simp [Engine.forget, erasePending, withSession, Session.forget, Wants, e₁, opened, idle])
      change Settled _ _ (Engine.failPending _ p _)
      refine SettledBut.failPending ?_ p (by simp)
      split
      · exact gone.subscriptions _
      · exact gone
    | _ =>
      refine written.ledger.settled_connectionLost (fun hd => ?_) _
      simp [e₁, opened, withSession, Session.track, hc] at hd
  · refine written.schedule (t := .ack k) ⟨hc, ?_⟩ (fun u hu => .inl hu) _
    simp [e₁, opened, withSession, Session.track]

theorem SettledBut.start (h : Settled w owed e) {phase : Phase} {mk : UInt16 → Packet}
    {s : Session} {packet : Packet} (hs : e.session.start e.now phase mk = (s, .ok packet))
    (hid : ∀ k, packetIdOf (mk k) = k)
    (hp : ∀ k order, Transaction.HoldsPacket
      { packetId := k, packet := mk k, phase, lastSent := e.now, order })
    {p : Pending} (ha : p.Awaits phase) :
    Settled w (take owed p.call?)
      ((e.withSession s).transmit (packetIdOf packet) packet p) := by
  obtain ⟨k, hc, free, ne, rfl, rfl⟩ := Session.start_eq_ok hs
  rw [hid]
  exact h.transmit hc free ne (hp k _) ha

theorem SettledBut.sendUnacknowledged (h : Settled w owed e) (call : CallId) (packet : Packet) :
    Settled w (take owed (some call)) (e.sendUnacknowledged call packet) := by
  have written := h.write packet
  unfold Engine.sendUnacknowledged
  rcases hw : e.write packet with ⟨e', err | _⟩
  all_goals rw [hw] at written
  · cases err with
    | encoding err => exact written.fail call (by simp)
    | _ =>
      have failed := written.fail call (show ClientError.notConnected ≠ _ by simp)
      exact failed.connectionLost _
  · exact written.succeed call .sent

theorem SettledBut.sendCall (h : Settled w owed e) (c : Call) :
    Settled w (take owed (some c.id)) (e.sendCall c) := by
  have refused : ∀ {err : SessionError}, err ≠ .wrongPacket →
      ClientError.ofSession err ≠ .session .wrongPacket := by
    intro err ne
    cases err <;> simp_all [ClientError.ofSession]
  cases c with
  | publish id p =>
    simp only [Engine.sendCall, Session.send, Session.sendPublish]
    by_cases hq : p.qos = .atMostOnce
    · simp only [hq, if_true]
      by_cases hc : e.session.connection = .connected
      · simp only [hc, if_true]
        exact h.sendUnacknowledged id _
      · simp only [hc, if_false]
        exact h.fail id (refused (by simp))
    · simp only [hq, if_false]
      rcases hs : e.session.start e.now .sent
        fun k => .publish { p with packetId := k, dup := false } with ⟨s, err | packet⟩
      · obtain ⟨rfl, ne⟩ := Session.start_eq_error hs
        exact h.fail id (refused ne)
      · exact h.start (p := .publish id) hs (fun _ => rfl) (fun _ _ => ⟨_, rfl, rfl, hq, rfl⟩)
          (.inl rfl)
  | subscribe id p handler =>
    simp only [Engine.sendCall, Session.send]
    rcases hs : e.session.start e.now .subscribing fun k => .subscribe { p with packetId := k }
      with ⟨s, err | packet⟩
    · obtain ⟨rfl, ne⟩ := Session.start_eq_error hs
      exact h.fail id (refused ne)
    · have subscribed := h.subscriptions (p.filters.foldl (·.insert · handler) e.subscriptions)
      exact subscribed.start (p := .subscribe id (p.filters.map (·.path))) hs (fun _ => rfl)
        (fun _ _ => ⟨_, rfl, rfl⟩) rfl
  | unsubscribe id p =>
    have unsubscribed := h.subscriptions (e.subscriptions.eraseAll p.filters)
    simp only [Engine.sendCall, Session.send]
    rcases hs : (e.unsubscribeAll p.filters).session.start (e.unsubscribeAll p.filters).now
      .unsubscribing fun k => .unsubscribe { p with packetId := k } with ⟨s, err | packet⟩
    · obtain ⟨rfl, ne⟩ := Session.start_eq_error hs
      exact unsubscribed.fail id (refused ne)
    · exact unsubscribed.start (p := .unsubscribe id) hs (fun _ => rfl) (fun _ _ => ⟨_, rfl, rfl⟩)
        rfl

theorem SettledBut.holdBack (h : Settled w owed e) (c : Call)
    (hc : e.session.connection = .disconnected → e.supervisor.isSome) :
    Settled w (take owed (some c.id)) { e with backlog := e.backlog ++ [c] } :=
  ⟨{ h.ledger with account_eq := by rw [account_backlog_append, h.ledger.account_eq] },
    { h.posture with
      idle := fun hd hs => by
        have planned := hc hd
        simp [show e.supervisor = none from hs] at planned },
    h.timers⟩

theorem SettledBut.request (h : Settled w owed e) (c : Call) (queued : Bool) :
    Settled w (take owed (some c.id)) (e.request c queued) := by
  unfold Engine.request isConnected
  split
  · next hc =>
    split
    · refine h.holdBack c fun hd => ?_
      simp [hd] at hc
    · exact h.sendCall c
  · split
    · next hs =>
      refine h.holdBack c fun _ => ?_
      simp only [Bool.and_eq_true] at hs
      exact hs.1
    · exact h.fail c.id (by simp)

theorem SettledBut.drainLoop (fuel : Nat) (h : Settled w owed e) :
    Settled w owed (drainLoop fuel e) := by
  induction fuel generalizing e with
  | zero => exact h
  | succ fuel ih =>
    rw [Engine.drainLoop]
    split
    · split
      · exact h
      · next c rest hb =>
        have account := account_backlog_cons hb
        rw [h.ledger.account_eq] at account
        have popped : Settled w ({ e with backlog := rest } : Engine).account
            { e with backlog := rest } :=
          ⟨{ h.ledger with account_eq := rfl },
            { h.posture with
              idle := fun hd hs => by simp [(h.posture.idle hd hs).2] at hb },
            h.timers⟩
        exact ih (account ▸ popped.request c true)
    · exact h

theorem SettledBut.drainBacklog (h : Settled w owed e) : Settled w owed e.drainBacklog :=
  h.drainLoop e.backlog.length

theorem SettledBut.cancelCall (h : Settled w owed e) (call : CallId) :
    ∃ owed', (∀ c, c ≠ call → owed' c = owed c) ∧ owed' call ≤ owed call ∧
      Settled w owed' (e.cancelCall call) := by
  unfold Engine.cancelCall
  split
  · next packetId p hf =>
    have found := List.find?_some hf
    have held : e.pending[packetId]? = some p :=
      Std.TreeMap.mem_toList_iff_getElem?_eq_some.1 (List.mem_of_find?_eq_some hf)
    obtain ⟨owed', ho, retired⟩ := h.retire (fun _ => nofun) held
    simp only [beq_iff_eq] at found
    rw [found] at ho
    refine ⟨owed', fun c ne => ?_, ?_, retired.drainBacklog⟩
    · rw [ho, take, if_neg fun e => ne (Option.some.inj e).symm, Nat.add_zero]
    · rw [ho, take]
      exact Nat.le_add_right _ _
  · refine ⟨({ e with backlog := e.backlog.filter (·.id != call) } : Engine).account,
      fun c ne => ?_, ?_, ?_⟩
    · rw [account_backlog_filter_of_ne e ne, h.ledger.account_eq]
    · rw [← h.ledger.account_eq]
      exact account_backlog_filter_le e call call
    · exact ⟨{ h.ledger with account_eq := rfl },
        { h.posture with
          idle := fun hd hs => ⟨(h.posture.idle hd hs).1, by
            simp [(h.posture.idle hd hs).2]⟩ },
        h.timers⟩

end MqttClient.Engine
