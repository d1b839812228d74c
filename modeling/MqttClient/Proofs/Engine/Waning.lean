import MqttClient.Proofs.Engine.Requests

/-! What an engine does short of sending a call: nothing new waits, nothing new is held back, and no
request goes out but that of a call which already waits. All that a command does before it comes to
the backlog is of this kind, and so is the loss of a connection. -/

namespace MqttClient

def Packet.isRequest : Packet → Bool
  | .publish p => p.qos != .atMostOnce
  | .subscribe _ | .unsubscribe _ => true
  | _ => false

def Effect.request? : Effect → Option (Option CallId × Packet)
  | .write call packet _ => if packet.isRequest then some (call, packet) else none
  | _ => none

/-- The transaction is not past its request, and the request is that packet. -/
def Transaction.Sends (t : Transaction) (packet : Packet) : Prop :=
  t.phase ≠ .released ∧ (packet = t.packet ∨ packet = t.resend)

namespace Engine

/-- The requests that were written, the earliest first and each as often as it was. -/
def requests (e : Engine) : List (Option CallId × Packet) := e.effects.filterMap Effect.request?

def Waits (e : Engine) (call : CallId) : Prop :=
  ∃ (k : UInt16) (p : Pending), e.pending[k]? = some p ∧ p.call? = some call

/-- A transaction is open for the call, or for none, and may write its request again as that
packet. -/
def Repeats (e : Engine) (call : Option CallId) (packet : Packet) : Prop :=
  ∃ (k : UInt16) (p : Pending) (t : Transaction), e.pending[k]? = some p ∧ p.call? = call ∧
    e.session.outgoing[k]? = some t ∧ t.Sends packet

def Lives (e : Engine) : Prop :=
  e.session.connection = .connected ∨ e.session.connection = .connecting

structure Terms where
  connection : ConnectionState
  epoch : Nat
  maxInflight : UInt16
  supervisor : Option Backoff

def terms (e : Engine) : Terms where
  connection := e.session.connection
  epoch := e.epoch
  maxInflight := e.session.maxInflight
  supervisor := e.supervisor

/-- No call comes to wait, and no request goes out but that of one which waits. -/
structure Wanes (e d : Engine) : Prop where
  inflight_le : d.session.inflight ≤ e.session.inflight
  waits : ∀ {call}, d.Waits call → e.Waits call
  repeats : ∀ {call packet}, d.Repeats call packet → e.Repeats call packet
  backlog : d.backlog.Sublist e.backlog
  requests : ∃ out, d.requests = e.requests ++ out ∧ ∀ r ∈ out, e.Repeats r.1 r.2

structure Keeps (e d : Engine) : Prop where
  config_eq : d.config = e.config
  terms_eq : d.Lives → d.terms = e.terms

structure Recedes (e d : Engine) : Prop extends Wanes e d, Keeps e d

/-- As many transactions are open as before, unless the connection is gone. -/
structure Rests (e d : Engine) : Prop extends Recedes e d where
  inflight_eq : d.session.connection = .connected → d.session.inflight = e.session.inflight

section

variable {e d f : Engine}

theorem Repeats.waits {call : CallId} {packet : Packet} (h : e.Repeats (some call) packet) :
    e.Waits call := by
  obtain ⟨k, p, -, hp, hc, -⟩ := h
  exact ⟨k, p, hp, hc⟩

theorem connection_eq_of_terms (h : d.terms = e.terms) :
    d.session.connection = e.session.connection :=
  congrArg Terms.connection h

theorem Wanes.refl (e : Engine) : Wanes e e :=
  ⟨Nat.le_refl _, id, id, .refl _, [], by simp, nofun⟩

theorem Keeps.refl (e : Engine) : Keeps e e := ⟨rfl, fun _ => rfl⟩

theorem Recedes.refl (e : Engine) : Recedes e e := ⟨.refl e, .refl e⟩

theorem Rests.refl (e : Engine) : Rests e e := ⟨.refl e, fun _ => rfl⟩

theorem Wanes.trans (h : Wanes e d) (h' : Wanes d f) : Wanes e f where
  inflight_le := Nat.le_trans h'.inflight_le h.inflight_le
  waits w := h.waits (h'.waits w)
  repeats w := h.repeats (h'.repeats w)
  backlog := h'.backlog.trans h.backlog
  requests := by
    obtain ⟨out, he, repeats⟩ := h.requests
    obtain ⟨out', he', repeats'⟩ := h'.requests
    refine ⟨out ++ out', by rw [he', he, List.append_assoc], fun r hr => ?_⟩
    exact (List.mem_append.1 hr).elim (repeats r) fun hr => h.repeats (repeats' r hr)

theorem Keeps.trans (h : Keeps e d) (h' : Keeps d f) : Keeps e f where
  config_eq := h'.config_eq.trans h.config_eq
  terms_eq lives := by
    have same := h'.terms_eq lives
    rw [Lives, connection_eq_of_terms same] at lives
    exact same.trans (h.terms_eq lives)

theorem Keeps.connection_eq (h : Keeps e d) (lives : d.Lives) :
    d.session.connection = e.session.connection :=
  connection_eq_of_terms (h.terms_eq lives)

theorem Recedes.trans (h : Recedes e d) (h' : Recedes d f) : Recedes e f :=
  ⟨h.toWanes.trans h'.toWanes, h.toKeeps.trans h'.toKeeps⟩

theorem Rests.trans (h : Rests e d) (h' : Rests d f) : Rests e f where
  toRecedes := h.toRecedes.trans h'.toRecedes
  inflight_eq hc := by
    have same := h'.connection_eq (.inl hc)
    exact (h'.inflight_eq hc).trans (h.inflight_eq (same ▸ hc))

theorem Wanes.rests (h : Wanes e d) (config : d.config = e.config)
    (hd : d.session.connection = .disconnected) : Rests e d :=
  ⟨⟨h, config, fun lives => by simp [Lives, hd] at lives⟩, fun hc => by simp [hd] at hc⟩

theorem Wanes.of_eq (pending : d.pending = e.pending)
    (outgoing : d.session.outgoing = e.session.outgoing) (backlog : d.backlog = e.backlog)
    (requests : d.requests = e.requests) : Wanes e d where
  inflight_le := Nat.le_of_eq (congrArg Std.TreeMap.size outgoing)
  waits := by
    unfold Waits
    rw [pending]
    exact id
  repeats := by
    unfold Repeats
    rw [pending, outgoing]
    exact id
  backlog := backlog ▸ .refl _
  requests := ⟨[], by simpa using requests, nofun⟩

theorem Rests.of_eq (terms : d.terms = e.terms) (config : d.config = e.config)
    (pending : d.pending = e.pending) (outgoing : d.session.outgoing = e.session.outgoing)
    (backlog : d.backlog = e.backlog) (requests : d.requests = e.requests) : Rests e d where
  toWanes := .of_eq pending outgoing backlog requests
  config_eq := config
  terms_eq _ := terms
  inflight_eq _ := congrArg Std.TreeMap.size outgoing

end

section

variable {e : Engine}

theorem rests_emit (e : Engine) {x : Effect} (hx : x.request? = none) : Rests e (e.emit x) :=
  .of_eq rfl rfl rfl rfl rfl (by simp [requests, emit, hx])

theorem rests_failPending (e : Engine) (p : Pending) (err : ClientError) :
    Rests e (e.failPending p err) := by
  unfold failPending
  split
  · exact rests_emit e rfl
  · exact .refl e

theorem rests_unsubscribeAll (e : Engine) (paths : List String) :
    Rests e (e.unsubscribeAll paths) :=
  .of_eq rfl rfl rfl rfl rfl rfl

theorem rests_schedule (e : Engine) (timer : Timer) (delay : Duration) :
    Rests e (e.schedule timer delay) :=
  .of_eq rfl rfl rfl rfl rfl rfl

theorem rests_cancelTimer (e : Engine) (timer : Timer) : Rests e (e.cancelTimer timer) :=
  .of_eq rfl rfl rfl rfl rfl rfl

theorem rests_erasePending (e : Engine) (k : UInt16) : Rests e (e.erasePending k) := by
  have old : ∀ {j : UInt16} {p}, (e.erasePending k).pending[j]? = some p →
      e.pending[j]? = some p := by
    intro j p hp
    simp only [erasePending, Std.TreeMap.getElem?_erase] at hp
    split at hp
    · cases hp
    · exact hp
  refine ⟨⟨⟨Nat.le_refl _, ?_, ?_, .refl _, [], ?_, List.forall_mem_nil _⟩, rfl, fun _ => rfl⟩,
    fun _ => rfl⟩
  · rintro call ⟨j, p, hp, hc⟩
    exact ⟨j, p, old hp, hc⟩
  · rintro call packet ⟨j, p, t, hp, hc, ht⟩
    exact ⟨j, p, t, old hp, hc, ht⟩
  · rw [List.append_nil]
    rfl

theorem recedes_forget (e : Engine) (k : UInt16) : Recedes e (e.forget k) := by
  refine ⟨⟨Std.TreeMap.size_erase_le, id, ?_, .refl _, [], ?_, List.forall_mem_nil _⟩, rfl,
    fun _ => rfl⟩
  · rintro call packet ⟨j, p, t, hp, hc, ht, sends⟩
    change (e.session.outgoing.erase k)[j]? = some t at ht
    rw [Std.TreeMap.getElem?_erase] at ht
    split at ht
    · cases ht
    · exact ⟨j, p, t, hp, hc, ht, sends⟩
  · rw [List.append_nil]
    rfl

theorem rests_insert (e : Engine) {k : UInt16} {t u : Transaction}
    (ht : e.session.outgoing[k]? = some t) (same : ∀ packet, u.Sends packet → t.Sends packet) :
    Rests e (e.withSession { e.session with outgoing := e.session.outgoing.insert k u }) := by
  have held : e.session.outgoing.contains k = true := by
    rw [Std.TreeMap.contains_eq_isSome_getElem?, ht, Option.isSome_some]
  have size : (e.session.outgoing.insert k u).size = e.session.outgoing.size := by
    rw [Std.TreeMap.size_insert, if_pos held]
  refine ⟨⟨⟨Nat.le_of_eq size, id, ?_, .refl _, [], ?_, List.forall_mem_nil _⟩, rfl, fun _ => rfl⟩,
    fun _ => size⟩
  · rintro call packet ⟨j, p, v, hp, hc, hv, sends⟩
    change (e.session.outgoing.insert k u)[j]? = some v at hv
    simp only [Std.TreeMap.getElem?_insert, Std.LawfulEqCmp.compare_eq_iff_eq] at hv
    split at hv
    · next here =>
      subst here
      cases hv
      exact ⟨k, p, t, hp, hc, ht, same packet sends⟩
    · exact ⟨j, p, v, hp, hc, hv, sends⟩
  · rw [List.append_nil]
    rfl

theorem rests_failAll (e : Engine) (err : ClientError) : Rests e (e.failAll err) := by
  rw [failAll_eq]
  refine ⟨⟨⟨Nat.le_refl _, ?_, ?_, List.nil_sublist _, [], ?_, List.forall_mem_nil _⟩, rfl,
    fun _ => rfl⟩, fun _ => rfl⟩
  · rintro call ⟨k, p, hp, -⟩
    cases (Std.TreeMap.getElem?_emptyc (a := k)).symm.trans hp
  · rintro call packet ⟨k, p, -, hp, -⟩
    cases (Std.TreeMap.getElem?_emptyc (a := k)).symm.trans hp
  · simp [requests, List.filterMap_map, Function.comp_def, Effect.request?]

theorem recedes_cleanSession (e : Engine) : Recedes e e.cleanSession := by
  refine ⟨⟨Nat.zero_le _, id, ?_, .refl _, [], ?_, List.forall_mem_nil _⟩, rfl, fun _ => rfl⟩
  · rintro call packet ⟨k, p, t, -, -, ht, -⟩
    cases (Std.TreeMap.getElem?_emptyc (a := k)).symm.trans ht
  · rw [List.append_nil]
    rfl

end

theorem rests_teardown (e : Engine) : Rests e e.teardown := by
  obtain ⟨effects, said, he⟩ := e.teardown_eq
  have quiet : e.teardown.requests = e.requests := by
    rw [he]
    obtain rfl | rfl := said
    · rfl
    · simp [requests, Effect.request?]
  exact (Wanes.of_eq (he ▸ rfl) (he ▸ rfl) (he ▸ rfl) quiet).rests (he ▸ rfl) (he ▸ rfl)

theorem teardown_connection (e : Engine) : e.teardown.session.connection = .disconnected := by
  obtain ⟨_, -, he⟩ := e.teardown_eq
  rw [he]
  rfl

theorem connectionLost_connection (e : Engine) (cause : ConnectionError) :
    (e.connectionLost cause).session.connection = .disconnected := by
  unfold connectionLost
  split
  · next gone => exact gone.1
  · dsimp only
    split
    · rw [failAll_eq]
      exact e.teardown_connection
    · exact e.teardown_connection
    · rw [failAll_eq]
      exact e.teardown_connection

theorem Wanes.abort {e d : Engine} (h : Wanes e d) (config : d.config = e.config)
    (hd : d.session.connection = .disconnected) (err : ClientError)
    (subscriptions : SubscriptionTable HandlerId) :
    Rests e { (d.failAll err).cleanSession with subscriptions } := by
  have cleaned := (rests_failAll d err).toWanes.trans (recedes_cleanSession _).toWanes
  have unsubscribed : Wanes (d.failAll err).cleanSession
      { (d.failAll err).cleanSession with subscriptions } := .of_eq rfl rfl rfl rfl
  refine (h.trans (cleaned.trans unsubscribed)).rests ?_ ?_
  all_goals
    rw [failAll_eq]
    assumption

theorem rests_connectionLost (e : Engine) (cause : ConnectionError) :
    Rests e (e.connectionLost cause) := by
  unfold connectionLost
  split
  · exact .refl e
  · have torn := e.rests_teardown
    have gone := e.teardown_connection
    dsimp only
    split
    · next call _ =>
      have uncalled : Wanes e.teardown { e.teardown with connectCall := none } :=
        .of_eq rfl rfl rfl rfl
      have told := rests_emit { e.teardown with connectCall := none }
        (x := .answer call (.error (.ofConnection cause))) rfl
      exact (torn.toWanes.trans (uncalled.trans told.toWanes)).abort torn.config_eq gone
        .notConnected _
    · next backoff _ _ =>
      have planned : Wanes e.teardown ({ e.teardown with
          supervisor := some (backoff.onFailed e.teardown.now) }.schedule .reconnect
            ((backoff.onFailed e.teardown.now).nextDelay e.teardown.draw)) :=
        .of_eq rfl rfl rfl rfl
      exact (torn.toWanes.trans planned).rests torn.config_eq gone
    · exact torn.toWanes.abort torn.config_eq gone (.connectionLost cause) _

theorem Wanes.connectionLost {e d : Engine} (h : Wanes e d) (config : d.config = e.config)
    (cause : ConnectionError) : Rests e (d.connectionLost cause) :=
  have lost := rests_connectionLost d cause
  (h.trans lost.toWanes).rests (lost.config_eq.trans config) (connectionLost_connection d cause)

structure Writes (e : Engine) (out : List (Option CallId × Packet)) (d : Engine) : Prop where
  terms_eq : d.terms = e.terms
  config_eq : d.config = e.config
  pending_eq : d.pending = e.pending
  outgoing_eq : d.session.outgoing = e.session.outgoing
  backlog_eq : d.backlog = e.backlog
  subscriptions_eq : d.subscriptions = e.subscriptions
  requests_eq : d.requests = e.requests ++ out

section

variable {e d f : Engine} {out out' : List (Option CallId × Packet)}

theorem Writes.refl (e : Engine) : Writes e [] e :=
  ⟨rfl, rfl, rfl, rfl, rfl, rfl, (List.append_nil _).symm⟩

theorem Writes.trans (h : Writes e out d) (h' : Writes d out' f) :
    Writes e (out ++ out') f where
  terms_eq := h'.terms_eq.trans h.terms_eq
  config_eq := h'.config_eq.trans h.config_eq
  pending_eq := h'.pending_eq.trans h.pending_eq
  outgoing_eq := h'.outgoing_eq.trans h.outgoing_eq
  backlog_eq := h'.backlog_eq.trans h.backlog_eq
  subscriptions_eq := h'.subscriptions_eq.trans h.subscriptions_eq
  requests_eq := by rw [h'.requests_eq, h.requests_eq, List.append_assoc]

theorem Writes.schedule (h : Writes e out d) (timer : Timer) (delay : Duration) :
    Writes e out (d.schedule timer delay) :=
  { h with requests_eq := h.requests_eq }

theorem Writes.repeats_iff (h : Writes e out d) {call : Option CallId} {packet : Packet} :
    d.Repeats call packet ↔ e.Repeats call packet := by
  unfold Repeats
  rw [h.pending_eq, h.outgoing_eq]

theorem Writes.wanes (h : Writes e out d) (repeats : ∀ r ∈ out, e.Repeats r.1 r.2) :
    Wanes e d where
  inflight_le := Nat.le_of_eq (congrArg Std.TreeMap.size h.outgoing_eq)
  waits := by
    unfold Waits
    rw [h.pending_eq]
    exact id
  repeats := h.repeats_iff.1
  backlog := h.backlog_eq ▸ .refl _
  requests := ⟨out, h.requests_eq, repeats⟩

theorem Writes.rests (h : Writes e out d) (repeats : ∀ r ∈ out, e.Repeats r.1 r.2) :
    Rests e d where
  toWanes := h.wanes repeats
  config_eq := h.config_eq
  terms_eq _ := h.terms_eq
  inflight_eq _ := congrArg Std.TreeMap.size h.outgoing_eq

end

def asRequest (e : Engine) (p : Packet) : Option (Option CallId × Packet) :=
  if p.isRequest then some (e.requester p, p) else none

def IsOld (e : Engine) (p : Packet) : Prop := ∀ r, e.asRequest p = some r → e.Repeats r.1 r.2

section

variable {e : Engine} {p : Packet}

theorem Writes.asRequest_eq {d : Engine} {out : List (Option CallId × Packet)}
    (h : Writes e out d) : d.asRequest = e.asRequest := by
  funext p
  unfold asRequest requester
  rw [h.pending_eq]

theorem isOld_of_not_isRequest (h : p.isRequest = false) : e.IsOld p := by
  intro r hr
  rw [asRequest, h] at hr
  cases hr

theorem put_writes (e : Engine) (p : Packet) :
    (∃ d, e.put p = (d, .ok ()) ∧ Writes e (e.asRequest p).toList d) ∨
    ∃ d err, e.put p = (d, .error err) ∧ Writes e [] d := by
  obtain ⟨link, bytes, -, he⟩ | ⟨link, err, -, he⟩ := e.put_cases p
  · refine .inl ⟨_, he, rfl, rfl, rfl, rfl, rfl, rfl, ?_⟩
    simp only [requests, emit, List.filterMap_append, asRequest]
    cases hp : p.isRequest <;> simp [Effect.request?, hp]
  · exact .inr ⟨_, err, he, rfl, rfl, rfl, rfl, rfl, rfl, (List.append_nil _).symm⟩

theorem write_writes (e : Engine) (p : Packet) :
    (∃ d, e.write p = (d, .ok ()) ∧ Writes e (e.asRequest p).toList d) ∨
    ∃ d err, e.write p = (d, .error err) ∧ Writes e [] d := by
  unfold write
  obtain ⟨d, he, written⟩ | ⟨d, err, he, failed⟩ := e.put_writes p
  all_goals rw [he]
  · exact .inl ⟨_, rfl, { written with requests_eq := written.requests_eq }⟩
  · exact .inr ⟨d, err, rfl, failed⟩

theorem IsOld.rests_put (h : e.IsOld p) : Rests e (e.put p).1 := by
  obtain ⟨d, he, written⟩ | ⟨d, err, he, failed⟩ := e.put_writes p
  all_goals rw [he]
  · exact written.rests fun r hr => h r (Option.mem_toList.1 hr)
  · exact failed.rests (List.forall_mem_nil _)

theorem IsOld.rests_write (h : e.IsOld p) : Rests e (e.write p).1 := by
  obtain ⟨d, he, written⟩ | ⟨d, err, he, failed⟩ := e.write_writes p
  all_goals rw [he]
  · exact written.rests fun r hr => h r (Option.mem_toList.1 hr)
  · exact failed.rests (List.forall_mem_nil _)

theorem rests_sendDisconnect (e : Engine) (reason : DisconnectReason) :
    Rests e (e.sendDisconnect reason) :=
  (isOld_of_not_isRequest rfl).rests_put

theorem IsOld.rests_writeOrLose (h : e.IsOld p) : Rests e (e.writeOrLose p) := by
  have written := h.rests_write
  unfold writeOrLose
  rcases he : e.write p with ⟨d, err | _⟩
  all_goals rw [he] at written
  · exact written.trans (rests_connectionLost d _)
  · exact written

theorem replayAll_writes (ackTimeout : Duration) (packets : List Packet) (e : Engine)
    (old : ∀ p ∈ packets, e.IsOld p) :
    (∃ d, e.replayAll ackTimeout packets = (d, true) ∧
      Writes e (packets.filterMap e.asRequest) d) ∨
    ∃ d, e.replayAll ackTimeout packets = (d, false) ∧ Rests e d ∧
      d.session.connection = .disconnected := by
  induction packets generalizing e with
  | nil => exact .inl ⟨e, rfl, .refl e⟩
  | cons packet rest ih =>
    rw [replayAll]
    have first := (old packet List.mem_cons_self).rests_write
    obtain ⟨d, he, written⟩ | ⟨d, err, he, -⟩ := e.write_writes packet
    all_goals
      rw [he] at first
      simp only [he]
    · have armed := written.schedule (.ack (packetIdOf packet)) ackTimeout
      have still : ∀ p ∈ rest, (d.schedule (.ack (packetIdOf packet)) ackTimeout).IsOld p := by
        intro p hp r hr
        rw [armed.asRequest_eq] at hr
        exact armed.repeats_iff.2 (old p (List.mem_cons_of_mem _ hp) r hr)
      obtain ⟨f, hf, done⟩ | ⟨f, hf, lost, gone⟩ := ih _ still
      · refine .inl ⟨f, hf, ?_⟩
        have both := armed.trans done
        rw [armed.asRequest_eq] at both
        cases hr : e.asRequest packet <;> simpa [hr] using both
      · exact .inr ⟨f, hf, (first.trans (rests_schedule d _ _)).trans lost, gone⟩
    · exact .inr ⟨_, rfl, first.trans (rests_connectionLost d _), connectionLost_connection d _⟩

end

end Engine

end MqttClient
