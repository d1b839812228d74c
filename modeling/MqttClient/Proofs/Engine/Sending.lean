import MqttClient.Proofs.Engine.Waning

/-! What sending a call does: nothing lasting if it is refused or not acknowledged, and otherwise
one more transaction is open and the call waits, its request written unless the connection is lost
over it. The backlog is drained by sending calls while there is room. -/

namespace MqttClient

/-- The packet is the request of the call, with an identifier and perhaps marked as repeated. -/
def Call.Carries : Call → Packet → Prop
  | .publish _ p, packet =>
    ∃ packetId dup, packet = .publish { p with packetId, dup } ∧ p.qos ≠ .atMostOnce
  | .subscribe _ p _, packet => ∃ packetId, packet = .subscribe { p with packetId }
  | .unsubscribe _ p, packet => ∃ packetId, packet = .unsubscribe { p with packetId }

namespace Engine

/-- The packet is a request of the call; without a call it is one for subscriptions. -/
def IsRequest (call : Option Call) (packet : Packet) : Prop :=
  match call with
  | some c => c.Carries packet
  | none => ∃ p, packet = .subscribe p

theorem IsRequest.isRequest {call : Option Call} {packet : Packet} (h : IsRequest call packet) :
    packet.isRequest = true := by
  cases call with
  | none =>
    obtain ⟨p, rfl⟩ := h
    rfl
  | some c =>
    cases c with
    | publish =>
      obtain ⟨k, dup, rfl, acknowledged⟩ := h
      simpa [Packet.isRequest] using acknowledged
    | subscribe | unsubscribe =>
      obtain ⟨k, rfl⟩ := h
      rfl

def IsOf (call : Option Call) (id : Option CallId) (packet : Packet) : Prop :=
  id = call.map Call.id ∧ IsRequest call packet

structure Admits (call : Option Call) (e d : Engine) : Prop extends Keeps e d where
  inflight_le : d.session.inflight ≤ e.session.inflight + 1
  waits : ∀ {id}, d.Waits id → e.Waits id ∨ ∃ c, call = some c ∧ c.id = id
  repeats : ∀ {id packet}, d.Repeats id packet → e.Repeats id packet ∨ IsOf call id packet
  backlog : d.backlog.Sublist e.backlog
  requests : ∃ out, d.requests = e.requests ++ out ∧
    ∀ r ∈ out, e.Repeats r.1 r.2 ∨ IsOf call r.1 r.2

def asked (e : Engine) : List CallId := e.requests.filterMap (·.1)

structure Grows (call : Option Call) (e d : Engine) : Prop extends Admits call e d where
  sent : d.session.connection = .connected → ∀ c, call = some c → c.id ∈ d.asked

section

variable {call : Option Call} {e d f : Engine}

theorem Admits.recedes (h : Admits call e d) (h' : Recedes d f) : Admits call e f where
  toKeeps := h.toKeeps.trans h'.toKeeps
  inflight_le := Nat.le_trans h'.inflight_le h.inflight_le
  waits w := h.waits (h'.waits w)
  repeats w := h.repeats (h'.repeats w)
  backlog := h'.backlog.trans h.backlog
  requests := by
    obtain ⟨out, he, known⟩ := h.requests
    obtain ⟨out', he', known'⟩ := h'.requests
    refine ⟨out ++ out', by rw [he', he, List.append_assoc], fun r hr => ?_⟩
    exact (List.mem_append.1 hr).elim (known r) fun hr => h.repeats (known' r hr)

theorem Admits.grows (h : Admits call e d) (hd : d.session.connection ≠ .connected) :
    Grows call e d :=
  ⟨h, fun hc => absurd hc hd⟩

theorem Recedes.grows (h : Recedes e d) (h' : Grows call d f) : Grows call e f where
  toKeeps := h.toKeeps.trans h'.toKeeps
  inflight_le := Nat.le_trans h'.inflight_le (Nat.add_le_add_right h.inflight_le 1)
  waits w := (h'.waits w).imp_left h.waits
  repeats w := (h'.repeats w).imp_left h.repeats
  backlog := h'.backlog.trans h.backlog
  requests := by
    obtain ⟨out, he, known⟩ := h.requests
    obtain ⟨out', he', known'⟩ := h'.requests
    refine ⟨out ++ out', by rw [he', he, List.append_assoc], fun r hr => ?_⟩
    exact (List.mem_append.1 hr).elim (fun hr => .inl (known r hr)) fun hr =>
      (known' r hr).imp_left h.repeats
  sent := h'.sent

end

section

variable {e : Engine} {k : UInt16} {packet : Packet} {phase : Phase} {p : Pending}
  {call : Option Call}

def admitted (e : Engine) (k : UInt16) (packet : Packet) (phase : Phase) (p : Pending) : Engine :=
  { e with
    session := e.session.track e.now k packet phase
    pending := e.pending.insert k p }

def IsFor (call : Option Call) (packet : Packet) (phase : Phase) : Prop :=
  ∀ (t : Transaction) (q : Packet), t.packet = packet → t.phase = phase → t.Sends q →
    IsRequest call q

theorem IsFor.of_resend (first : IsRequest call packet)
    (again : ∀ t : Transaction, t.packet = packet → t.phase = phase → IsRequest call t.resend) :
    IsFor call packet phase := by
  rintro t q hpacket hphase ⟨-, rfl | rfl⟩
  · exact hpacket ▸ first
  · exact again t hpacket hphase

theorem admits_admitted (e : Engine) (k : UInt16) (hp : p.call? = call.map Call.id)
    (isFor : IsFor call packet phase) : Admits call e (e.admitted k packet phase p) := by
  have caller : ∀ {id}, p.call? = some id → ∃ c, call = some c ∧ c.id = id := by
    intro id hid
    rw [hp, Option.map_eq_some_iff] at hid
    exact hid
  have held : ∀ {j : UInt16} {q : Pending}, (e.admitted k packet phase p).pending[j]? = some q →
      (j = k ∧ q = p) ∨ (j ≠ k ∧ e.pending[j]? = some q) := by
    intro j q hq
    change (e.pending.insert k p)[j]? = some q at hq
    simp only [Std.TreeMap.getElem?_insert, Std.LawfulEqCmp.compare_eq_iff_eq] at hq
    split at hq
    · next same =>
      cases hq
      exact .inl ⟨same.symm, rfl⟩
    · next other => exact .inr ⟨fun same => other same.symm, hq⟩
  refine ⟨⟨rfl, fun _ => rfl⟩, Std.TreeMap.size_insert_le, ?_, ?_, .refl _, [], ?_,
    List.forall_mem_nil _⟩
  · rintro id ⟨j, q, hq, hc⟩
    obtain ⟨-, rfl⟩ | ⟨-, hq⟩ := held hq
    · exact .inr (caller hc)
    · exact .inl ⟨j, q, hq, hc⟩
  · rintro id sent ⟨j, q, t, hq, hc, ht, sends⟩
    change (e.session.outgoing.insert k _)[j]? = some t at ht
    obtain ⟨rfl, rfl⟩ | ⟨other, hq⟩ := held hq
    · rw [Std.TreeMap.getElem?_insert_self, Option.some.injEq] at ht
      exact .inr ⟨hc ▸ hp, isFor t sent (ht ▸ rfl) (ht ▸ rfl) sends⟩
    · refine .inl ⟨j, q, t, hq, hc, ?_, sends⟩
      simpa [Std.TreeMap.getElem?_insert, Ne.symm other] using ht
  · rw [List.append_nil]
    rfl

theorem repeats_admitted (e : Engine) (k : UInt16) (packet : Packet) {phase : Phase}
    (hphase : phase ≠ .released) (p : Pending) :
    (e.admitted k packet phase p).Repeats p.call? packet :=
  ⟨k, p, _, Std.TreeMap.getElem?_insert_self, rfl, Std.TreeMap.getElem?_insert_self, hphase,
    .inl rfl⟩

theorem rests_dropped (free : e.session.outgoing[k]? = none) {d : Engine}
    (h : Writes (e.admitted k packet phase p) [] d) : Rests e ((d.forget k).erasePending k) := by
  have pending : ∀ {j : UInt16} {q : Pending}, ((d.forget k).erasePending k).pending[j]? = some q →
      e.pending[j]? = some q := by
    intro j q hq
    change (d.pending.erase k)[j]? = some q at hq
    rw [h.pending_eq] at hq
    simp only [admitted, Std.TreeMap.getElem?_erase, Std.TreeMap.getElem?_insert] at hq
    split at hq
    · cases hq
    · simp_all
  have outgoing : ((d.forget k).erasePending k).session.outgoing
      = (e.admitted k packet phase p).session.outgoing.erase k :=
    congrArg (Std.TreeMap.erase · k) h.outgoing_eq
  have size : ((d.forget k).erasePending k).session.inflight = e.session.inflight := by
    have vacant : k ∉ e.session.outgoing := by
      simp [Std.TreeMap.mem_iff_isSome_getElem?, free]
    rw [Session.inflight, outgoing, Std.TreeMap.size_erase]
    simp [admitted, Session.track, Std.TreeMap.size_insert, vacant, Session.inflight]
  refine ⟨⟨⟨Nat.le_of_eq size, ?_, ?_, h.backlog_eq ▸ .refl _, [], h.requests_eq,
    List.forall_mem_nil _⟩, h.config_eq, fun _ => h.terms_eq⟩, fun _ => size⟩
  · rintro id ⟨j, q, hq, hc⟩
    exact ⟨j, q, pending hq, hc⟩
  · rintro id sent ⟨j, q, t, hq, hc, ht, sends⟩
    refine ⟨j, q, t, pending hq, hc, ?_, sends⟩
    rw [outgoing] at ht
    simp only [admitted, Session.track, Std.TreeMap.getElem?_erase,
      Std.TreeMap.getElem?_insert] at ht
    split at ht
    · cases ht
    · simp_all

theorem rests_dropPending (free : e.session.outgoing[k]? = none) {d : Engine}
    (h : Writes (e.admitted k packet phase p) [] d) (err : ClientError) :
    Rests e (d.dropPending k p err) := by
  have dropped := rests_dropped free h
  unfold dropPending
  dsimp only
  split
  · exact (dropped.trans (rests_unsubscribeAll _ _)).trans (rests_failPending _ _ _)
  · exact dropped.trans (rests_failPending _ _ _)

theorem transmit_of_ok {d : Engine}
    (he : ({ e with pending := e.pending.insert k p } : Engine).write packet = (d, .ok ())) :
    e.transmit k packet p = d.schedule (.ack k) d.ackTimeout := by
  rw [transmit, he]

theorem transmit_of_encoding {d : Engine} {err : WireError}
    (he : ({ e with pending := e.pending.insert k p } : Engine).write packet
      = (d, .error (.encoding err))) :
    e.transmit k packet p = d.dropPending k p (.encoding err) := by
  rw [transmit, he]

theorem transmit_of_error {d : Engine} {err : TransportError}
    (he : ({ e with pending := e.pending.insert k p } : Engine).write packet = (d, .error err))
    (ne : ∀ cause, err ≠ .encoding cause) :
    e.transmit k packet p = d.connectionLost (.transport err) := by
  rw [transmit, he]
  cases err with
  | encoding cause => exact absurd rfl (ne cause)
  | _ => rfl

theorem transmit_cases (free : e.session.outgoing[k]? = none) (hphase : phase ≠ .released)
    (hp : p.call? = call.map Call.id) (isFor : IsFor call packet phase)
    (asks : ∀ d : Engine, d.pending[k]? = some p → d.requester packet = p.call?) :
    let d := (e.withSession (e.session.track e.now k packet phase)).transmit k packet p
    Rests e d ∨ Grows call e d := by
  intro d
  let opened := e.withSession (e.session.track e.now k packet phase)
  have admits := e.admits_admitted k hp isFor
  have request : IsRequest call packet :=
    isFor { packetId := k, packet, phase, lastSent := e.now, order := 0 } packet rfl rfl
      ⟨hphase, .inl rfl⟩
  have asked : (e.admitted k packet phase p).asRequest packet = some (p.call?, packet) := by
    rw [asRequest, if_pos request.isRequest, asks _ Std.TreeMap.getElem?_insert_self]
  have old : (e.admitted k packet phase p).IsOld packet := by
    intro r hr
    rw [asked, Option.some.injEq] at hr
    exact hr ▸ e.repeats_admitted k packet hphase p
  have rests := old.rests_write
  obtain ⟨m, he, written⟩ | ⟨m, err, he, failed⟩ :=
    (e.admitted k packet phase p).write_writes packet
  all_goals rw [he] at rests
  · have sent : d = m.schedule (.ack k) m.ackTimeout := transmit_of_ok (e := opened) he
    have armed := rests.trans (rests_schedule m (.ack k) m.ackTimeout)
    refine .inr ⟨sent ▸ admits.recedes armed.toRecedes, fun _ c hc => ?_⟩
    have requests : (m.schedule (.ack k) m.ackTimeout).requests = _ := written.requests_eq
    rw [sent, Engine.asked, requests, asked, hp, hc]
    simp
  · by_cases tooLong : ∃ cause, err = .encoding cause
    · obtain ⟨cause, rfl⟩ := tooLong
      have dropped : d = m.dropPending k p (.encoding cause) :=
        transmit_of_encoding (e := opened) he
      exact .inl (dropped ▸ rests_dropPending free failed _)
    · have lost : d = m.connectionLost (.transport err) :=
        transmit_of_error (e := opened) he fun cause same => tooLong ⟨cause, same⟩
      have gone := rests.trans (rests_connectionLost m (.transport err))
      refine .inr (lost ▸ (admits.recedes gone.toRecedes).grows ?_)
      rw [connectionLost_connection]
      decide

theorem start_cases {mk : UInt16 → Packet} {s : Session}
    (hs : e.session.start e.now phase mk = (s, .ok packet)) (hphase : phase ≠ .released)
    (hid : ∀ k, packetIdOf (mk k) = k) (hp : p.call? = call.map Call.id)
    (isFor : ∀ k, IsFor call (mk k) phase)
    (asks : ∀ (d : Engine) (k : UInt16), d.requester (mk k) = d.pending[k]?.bind Pending.call?) :
    let d := (e.withSession s).transmit (packetIdOf packet) packet p
    Rests e d ∨ Grows call e d := by
  obtain ⟨k, -, free, -, rfl, rfl⟩ := Session.start_eq_ok hs
  rw [hid]
  exact transmit_cases free hphase hp (isFor k) fun d hd => by rw [asks, hd, Option.bind_some]

theorem rests_refused {mk : UInt16 → Packet} {s : Session} {err : SessionError}
    (hs : e.session.start e.now phase mk = (s, .error err)) (call : CallId) (why : ClientError) :
    Rests e ((e.withSession s).fail call why) := by
  obtain ⟨rfl, -⟩ := Session.start_eq_error hs
  exact rests_emit e rfl

theorem rests_sendUnacknowledged (old : e.IsOld packet) (call : CallId) :
    Rests e (e.sendUnacknowledged call packet) := by
  have written := old.rests_write
  unfold sendUnacknowledged
  rcases hw : e.write packet with ⟨d, err | _⟩
  all_goals rw [hw] at written
  · have failed := fun why => written.trans (rests_emit d (x := .answer call (.error why)) rfl)
    cases err with
    | encoding err => exact failed _
    | _ => exact (failed _).trans (rests_connectionLost _ _)
  · exact written.trans (rests_emit d rfl)

end

section

variable {e : Engine}

theorem sendCall_cases (e : Engine) (c : Call) :
    Rests e (e.sendCall c) ∨ c.isUnacknowledged = false ∧ Grows (some c) e (e.sendCall c) := by
  cases c with
  | publish id p =>
    simp only [sendCall, Session.send, Session.sendPublish]
    by_cases hq : p.qos = .atMostOnce
    · left
      simp only [hq, if_true]
      by_cases hc : e.session.connection = .connected
      · simp only [hc, if_true]
        exact rests_sendUnacknowledged (isOld_of_not_isRequest (by simp [Packet.isRequest])) id
      · simp only [hc, if_false]
        exact rests_emit e rfl
    · simp only [hq, if_false]
      rcases hs : e.session.start e.now .sent
        fun k => .publish { p with packetId := k, dup := false } with ⟨s, err | packet⟩
      · exact .inl (rests_refused hs id _)
      · have isFor : ∀ k, IsFor (some (.publish id p))
            (.publish { p with packetId := k, dup := false }) .sent := fun k =>
          .of_resend ⟨k, false, rfl, hq⟩ fun t hpacket hphase =>
            ⟨k, true, by simp [Transaction.resend, hpacket, hphase], hq⟩
        refine (start_cases (p := .publish id) hs (by decide) (fun _ => rfl) rfl isFor
          fun d k => ?_).imp_right fun grown => ⟨by simp [Call.isUnacknowledged, hq], grown⟩
        simp only [requester, hq, if_false]
  | subscribe id p handler =>
    simp only [sendCall, Session.send]
    rcases hs : e.session.start e.now .subscribing fun k => .subscribe { p with packetId := k }
      with ⟨s, err | packet⟩
    · exact .inl (rests_refused hs id _)
    · have subscribed : Rests e (e.subscribeAll p.filters handler) :=
        .of_eq rfl rfl rfl rfl rfl rfl
      have isFor : ∀ k, IsFor (some (.subscribe id p handler))
          (.subscribe { p with packetId := k }) .subscribing := fun k =>
        .of_resend ⟨k, rfl⟩ fun t hpacket hphase =>
          ⟨k, by simp [Transaction.resend, hpacket, hphase]⟩
      obtain rests | grows := start_cases (e := e.subscribeAll p.filters handler)
        (p := .subscribe id (p.filters.map (·.path))) hs (by decide) (fun _ => rfl) rfl isFor
        fun _ _ => rfl
      · exact .inl (subscribed.trans rests)
      · exact .inr ⟨rfl, subscribed.toRecedes.grows grows⟩
  | unsubscribe id p =>
    have unsubscribed := e.rests_unsubscribeAll p.filters
    simp only [sendCall, Session.send]
    rcases hs : (e.unsubscribeAll p.filters).session.start (e.unsubscribeAll p.filters).now
      .unsubscribing fun k => .unsubscribe { p with packetId := k } with ⟨s, err | packet⟩
    · exact .inl (unsubscribed.trans (rests_refused hs id _))
    · have isFor : ∀ k, IsFor (some (.unsubscribe id p))
          (.unsubscribe { p with packetId := k }) .unsubscribing := fun k =>
        .of_resend ⟨k, rfl⟩ fun t hpacket hphase =>
          ⟨k, by simp [Transaction.resend, hpacket, hphase]⟩
      obtain rests | grows := start_cases (p := .unsubscribe id) hs (by decide) (fun _ => rfl) rfl
        isFor fun _ _ => rfl
      · exact .inl (unsubscribed.trans rests)
      · exact .inr ⟨rfl, unsubscribed.toRecedes.grows grows⟩

theorem resubscribe_cases (e : Engine) :
    Rests e e.resubscribe ∨ e.subscriptions.isEmpty = false ∧ Grows none e e.resubscribe := by
  unfold resubscribe
  split
  · exact .inl (.refl e)
  · next filled =>
    simp only [Session.send]
    rcases hs : e.session.start e.now .subscribing fun k =>
      .subscribe { filters := e.subscriptions.filters, packetId := k } with ⟨s, err | packet⟩
    · obtain ⟨rfl, -⟩ := Session.start_eq_error hs
      exact .inl (.refl e)
    · have isFor : ∀ k, IsFor none
          (.subscribe { filters := e.subscriptions.filters, packetId := k }) .subscribing :=
        fun _ => .of_resend ⟨_, rfl⟩ fun t hpacket hphase => by
          have same : t.resend = t.packet := by simp [Transaction.resend, hpacket, hphase]
          exact ⟨_, same.trans hpacket⟩
      exact (start_cases (p := .resubscribe (e.subscriptions.filters.map (·.path))) hs (by decide)
        (fun _ => rfl) rfl isFor fun _ _ => rfl).imp_right
        fun grown => ⟨by simpa using filled, grown⟩

theorem request_forms (e : Engine) (call : Call) :
    (e.session.connection = .connected ∧ (call.isUnacknowledged = false → e.backlog = []) ∧
      e.request call false = e.sendCall call) ∨
    ((e.session.connection = .connected ∨ e.supervisor.isSome) ∧
      e.request call false = { e with backlog := e.backlog ++ [call] }) ∨
    (e.session.connection ≠ .connected ∧
      (call.isUnacknowledged = false → e.supervisor = none) ∧
      e.request call false = e.fail call.id .notConnected) := by
  unfold request isConnected
  split
  · next connected =>
    rw [beq_iff_eq] at connected
    split
    · exact .inr (.inl ⟨.inl connected, rfl⟩)
    · next sent =>
      refine .inl ⟨connected, fun acked => ?_, rfl⟩
      simp only [acked, Bool.not_false, Bool.true_and, Bool.or_eq_true, Bool.not_eq_true',
        List.isEmpty_eq_false_iff, not_or, not_not] at sent
      exact sent.2
  · next apart =>
    rw [beq_iff_eq] at apart
    split
    · next planned =>
      rw [Bool.and_eq_true] at planned
      exact .inr (.inl ⟨.inr planned.1, rfl⟩)
    · next unplanned =>
      refine .inr (.inr ⟨apart, fun acked => ?_, rfl⟩)
      simpa [acked] using unplanned

theorem request_cases (e : Engine) (c : Call) :
    Rests e (e.request c false) ∨
    (e.session.connection = .connected ∧ e.session.isFull = false ∧ e.backlog = [] ∧
      Grows (some c) e (e.request c false)) ∨
    ((e.session.connection = .connected → e.session.isFull ∨ e.backlog ≠ []) ∧
      (e.session.connection ≠ .connected → e.supervisor.isSome) ∧
      e.request c false = { e with backlog := e.backlog ++ [c] }) := by
  have connected : e.isConnected = true ↔ e.session.connection = .connected := by
    simp [isConnected]
  unfold request
  split
  · next hc =>
    rw [connected] at hc
    split
    · next held =>
      simp only [Bool.not_false, Bool.true_and, Bool.and_eq_true, Bool.or_eq_true,
        Bool.not_eq_true', List.isEmpty_eq_false_iff] at held
      exact .inr (.inr ⟨fun _ => held.2, fun hn => absurd hc hn, rfl⟩)
    · next sent =>
      obtain rests | ⟨acked, grows⟩ := e.sendCall_cases c
      · exact .inl rests
      · simp only [acked, Bool.not_false, Bool.true_and, Bool.or_eq_true, Bool.not_eq_true',
          List.isEmpty_eq_false_iff, not_or, Bool.not_eq_true, not_not] at sent
        exact .inr (.inl ⟨hc, sent.1, sent.2, grows⟩)
  · next hc =>
    rw [connected] at hc
    split
    · next planned =>
      simp only [Bool.and_eq_true] at planned
      exact .inr (.inr ⟨fun hc' => absurd hc' hc, fun _ => planned.1, rfl⟩)
    · exact .inl (rests_emit e rfl)

theorem request_queued (hc : e.session.connection = .connected) (room : e.session.isFull = false)
    (c : Call) : e.request c true = e.sendCall c := by
  simp [request, isConnected, hc, room]

theorem drainLoop_induction {motive : Engine → Prop} (fuel : Nat) {e : Engine} (start : motive e)
    (step : ∀ (e : Engine) (c : Call) (rest : List Call), motive e →
      e.session.connection = .connected → e.session.isFull = false → e.backlog = c :: rest →
      motive (({ e with backlog := rest } : Engine).sendCall c)) :
    motive (drainLoop fuel e) := by
  induction fuel generalizing e with
  | zero => exact start
  | succ fuel ih =>
    rw [drainLoop]
    split
    · next room =>
      simp only [Bool.and_eq_true, Bool.not_eq_true', isConnected, beq_iff_eq] at room
      split
      · exact start
      · next c rest hb =>
        rw [request_queued (e := { e with backlog := rest }) room.1 room.2]
        exact ih (step e c rest start room.1 room.2 hb)
    · exact start

theorem keeps_sendCall (e : Engine) (c : Call) (rest : List Call) :
    Keeps e (({ e with backlog := rest } : Engine).sendCall c) := by
  have popped : Keeps e { e with backlog := rest } := ⟨rfl, fun _ => rfl⟩
  obtain rests | ⟨-, grows⟩ := ({ e with backlog := rest } : Engine).sendCall_cases c
  · exact popped.trans rests.toKeeps
  · exact popped.trans grows.toKeeps

theorem keeps_drainBacklog (e : Engine) : Keeps e e.drainBacklog :=
  drainLoop_induction e.backlog.length (.refl e) fun d c rest kept _ _ _ =>
    kept.trans (d.keeps_sendCall c rest)

theorem isFull_drainLoop (fuel : Nat) {e : Engine} (enough : e.backlog.length ≤ fuel)
    (hc : (drainLoop fuel e).session.connection = .connected) :
    (drainLoop fuel e).session.isFull = true ∨ (drainLoop fuel e).backlog = [] := by
  induction fuel generalizing e with
  | zero => exact .inr (List.length_eq_zero_iff.1 (Nat.le_zero.1 enough))
  | succ fuel ih =>
    rw [drainLoop] at hc ⊢
    split
    · next room =>
      rw [if_pos room] at hc
      split
      · next hb => exact .inr hb
      · next c rest hb =>
        simp only [Bool.and_eq_true, Bool.not_eq_true', isConnected, beq_iff_eq] at room
        simp only [hb] at hc
        rw [request_queued (e := { e with backlog := rest }) room.1 room.2] at hc ⊢
        refine ih ?_ hc
        have shorter : (({ e with backlog := rest } : Engine).sendCall c).backlog.Sublist rest := by
          obtain rests | ⟨-, grows⟩ := ({ e with backlog := rest } : Engine).sendCall_cases c
          · exact rests.backlog
          · exact grows.backlog
        have le := shorter.length_le
        rw [hb, List.length_cons] at enough
        omega
    · next full =>
      rw [if_neg full] at hc
      simp only [isConnected, hc, BEq.rfl, Bool.true_and, Bool.not_eq_true',
        Bool.not_eq_false] at full
      exact .inl full

end

end Engine

end MqttClient
